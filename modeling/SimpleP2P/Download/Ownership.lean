import SimpleP2P.Download.Phases

namespace SimpleP2P
open Library

/-- The worker that `get_segment` has handed each segment to last, a history variable. -/
abbrev History := SegmentId → Option Nat

structure Work where
  phase : Phase
  owned : SegmentId
  releases : Bool

def Work.Requests (v : Work) (last : History) (i : Nat) : Prop :=
  ∃ s ∈ v.phase.outstanding?, last s.id = some i

instance (v : Work) (last : History) (i : Nat) : Decidable (v.Requests last i) :=
  inferInstanceAs (Decidable (∃ s ∈ v.phase.outstanding?, last s.id = some i))

namespace DownloadWorker

def releases (w : DownloadWorker) : Bool :=
  match w.pc with
  | .releasing _ => true
  | _ => false

def work (w : DownloadWorker) : Work := ⟨w.phase, w.ownedSegmentId, w.releases⟩

def failing? (w : DownloadWorker) : Option Segment :=
  match w.pc with
  | .failing segment => some segment
  | _ => none

def leaves (w : DownloadWorker) (choice : Choice) : Bool :=
  match w.pc with
  | .receiving _ => choice.io
  | .releasing _ => true
  | _ => false

variable {w w' : DownloadWorker} {completed : Bool} {delays : HostDelays} {choice : Choice}

theorem advance_leaves (h : w.advance completed delays choice = .ok w') :
    w.leaves choice = true ↔ w.ends choice = true ∧ choice.io = true := by
  cases pc : w.pc with
  | releasing s => simp [advance, pc] at h
  | requesting s => simp [leaves, ends, pc]
  | _ => simp [leaves, ends, pc]

theorem advance_releases (h : w.advance completed delays choice = .ok w') :
    w'.releases = w.failing?.isSome := by
  cases pc : w.pc with
  | failing s =>
      simp only [advance, pc] at h
      split at h
      · obtain rfl := Except.ok.inj h
        simp [releases, failing?, pc]
      · contradiction
  | returned s =>
      simp only [advance, pc] at h
      split at h <;> obtain rfl := Except.ok.inj h <;> simp [releases, failing?, pc]
  | loopTest | banTest | completionTest notified | connecting | requesting s | receiving s =>
      simp only [advance, pc, Except.ok.injEq] at h
      subst h
      simp only [releases, failing?, pc]
      split at * <;> first | rfl | grind
  | banWait | clearing s | terminating =>
      simp only [advance, pc, Except.ok.injEq] at h
      subst h
      simp [releases, failing?, pc]
  | scan notified | parked | completing s | releasing s | finished => simp [advance, pc] at h

theorem failing_phase {s : Segment} (h : w.failing? = some s) : w.phase = .failed s := by
  cases pc : w.pc with
  | failing t =>
      obtain rfl : t = s := by simpa [failing?, pc] using h
      simp [phase, pc]
  | _ => simp [failing?, pc] at h

end DownloadWorker

namespace Download

variable {d d' : Download} {last : History} {i : Nat}

/-- The next step of the service increases the counter of worker `i` or releases its segment. -/
def handling? (d : Download) : Option Nat :=
  match d.controller with
  | .increasing i | .releasing i _ => some i
  | _ => none

/-- `check_timeout` decides to act on worker `i`, or loads the id it will release. -/
def due? (d : Download) : Option Nat :=
  match d.controller with
  | .checking i => if d.workers[i]?.any (·.timeouted) then some i else none
  | .loading i => some i
  | _ => none

def handsOut? (d : Download) (w : DownloadWorker) : Option Segment :=
  match w.pc with
  | .scan _ => d.complete.takeSegment.map Prod.fst
  | _ => none

def note (d : Download) (e : Event) (last : History) : History :=
  match e with
  | .worker i _ =>
      match d.workers[i]?.bind d.handsOut? with
      | some segment => Function.update last segment.id (some i)
      | none => last
  | _ => last

def Releases (d : Download) (i : Nat) (id : SegmentId) : Prop :=
  d.controller = .releasing i id ∨
    ∃ w s, d.workers[i]? = some w ∧ w.pc = .releasing s ∧ w.ownedSegmentId = id

def Owns (d : Download) (last : History) (i : Nat) (id : SegmentId) : Prop :=
  id < d.complete.resource.calcSegmentsCount ∧ last id = some i ∧
    ∃ w s, d.workers[i]? = some w ∧ w.phase.outstanding? = some s ∧ s.id = id

structure ReleasesOwned (d : Download) (last : History) : Prop where
  release : ∀ i id, d.Releases i id → d.Owns last i id
  increase : ∀ i, d.controller = .increasing i → ∃ id, d.Owns last i id

/-- A request does not end while the service is about to count its timeout or to release its segment;
a worker fails only with a segment that is still its own; and `get_segment` hands out no segment that is
about to be released for the worker that had it. -/
def Yields (d : Download) (last : History) (i : Nat) (w : DownloadWorker) (choice : Choice) : Prop :=
  (w.leaves choice = true → d.handling? ≠ some i) ∧ (∀ s ∈ w.failing?, last s.id = some i) ∧
    ∀ s ∈ d.handsOut? w, ∀ j ∈ last s.id, ∀ v ∈ d.workers[j]?, v.ownedSegmentId = s.id →
      d.handling? ≠ some j ∧ v.releases = false

instance (d : Download) (last : History) (i : Nat) (w : DownloadWorker) (choice : Choice) :
    Decidable (d.Yields last i w choice) :=
  inferInstanceAs (Decidable ((w.leaves choice = true → d.handling? ≠ some i) ∧
    (∀ s ∈ w.failing?, last s.id = some i) ∧
      ∀ s ∈ d.handsOut? w, ∀ j ∈ last s.id, ∀ v ∈ d.workers[j]?, v.ownedSegmentId = s.id →
        d.handling? ≠ some j ∧ v.releases = false))

/-- `check_timeout` acts on a worker only while its request is outstanding and its segment was handed to
nobody since, and workers yield to it. -/
def TimesOutRightly (p : Download × History) : Event → Prop
  | .worker i choice => ∀ w ∈ p.1.workers[i]?, p.1.Yields p.2 i w choice
  | .controller _ => ∀ i ∈ p.1.due?, ∀ w ∈ p.1.workers[i]?, w.work.Requests p.2 i
  | .wake _ | .close _ => True

instance (p : Download × History) : (e : Event) → Decidable (TimesOutRightly p e)
  | .worker i choice => inferInstanceAs (Decidable (∀ w ∈ p.1.workers[i]?, p.1.Yields p.2 i w choice))
  | .controller _ =>
      inferInstanceAs (Decidable (∀ i ∈ p.1.due?, ∀ w ∈ p.1.workers[i]?, w.work.Requests p.2 i))
  | .wake _ | .close _ => .isTrue trivial

/-! ## The property in terms of the work -/

def works (d : Download) : List Work := d.workers.map DownloadWorker.work

theorem works_getElem? {w : DownloadWorker} (there : d.workers[i]? = some w) :
    d.works[i]? = some w.work := by
  rw [works, List.getElem?_map, there]
  rfl

theorem exists_worker {v : Work} (there : d.works[i]? = some v) :
    ∃ w, d.workers[i]? = some w ∧ w.work = v := by
  rwa [works, List.getElem?_map, Option.map_eq_some_iff] at there

def Entitled (d : Download) (last : History) : Prop :=
  ∀ i v, d.works[i]? = some v → d.handling? = some i ∨ v.releases = true → v.Requests last i

structure Tenured (d : Download) : Prop where
  equipped : ∀ (i : Nat) (w : DownloadWorker), d.workers[i]? = some w → Equipped d.complete.resource w
  handled : ∀ i, d.handling? = some i → ∃ v, d.works[i]? = some v ∧
    ∀ id, d.controller = .releasing i id → id = v.owned

theorem Tenured.stored (h : d.Tenured) {v : Work} (there : d.works[i]? = some v) {s : Segment}
    (outstanding : v.phase.outstanding? = some s) :
    s.id < d.complete.resource.calcSegmentsCount ∧ v.owned = s.id := by
  obtain ⟨w, here, rfl⟩ := exists_worker there
  have stored := Phase.stored_of_outstanding outstanding
  exact ⟨((h.equipped i w here).placed s (Phase.segment_of_stored stored)).1,
    (h.equipped i w here).owned s stored⟩

theorem Tenured.owns_iff (h : d.Tenured) {v : Work} (there : d.works[i]? = some v) :
    d.Owns last i v.owned ↔ v.Requests last i := by
  constructor
  · rintro ⟨-, mine, w, s, here, outstanding, same⟩
    obtain rfl := Option.some.inj ((works_getElem? here).symm.trans there)
    exact ⟨s, outstanding, same ▸ mine⟩
  · rintro ⟨s, outstanding, mine⟩
    obtain ⟨inside, owned⟩ := h.stored there outstanding
    obtain ⟨w, here, rfl⟩ := exists_worker there
    exact owned ▸ ⟨inside, mine, w, s, here, outstanding, rfl⟩

theorem releases_iff {w : DownloadWorker} : w.releases = true ↔ ∃ s, w.pc = .releasing s := by
  cases pc : w.pc <;> simp [DownloadWorker.releases, pc]

theorem Tenured.releasesOwned_iff (h : d.Tenured) : d.ReleasesOwned last ↔ d.Entitled last := by
  constructor
  · rintro ⟨release, increase⟩ i v there (handling | releases)
    · cases controller : d.controller with
      | increasing j =>
          obtain rfl : j = i := by simpa [handling?, controller] using handling
          obtain ⟨id, inside, mine, w, s, here, outstanding, rfl⟩ := increase j controller
          obtain rfl := Option.some.inj ((works_getElem? here).symm.trans there)
          exact ⟨s, outstanding, mine⟩
      | releasing j id =>
          obtain rfl : j = i := by simpa [handling?, controller] using handling
          obtain ⟨v', here, same⟩ := h.handled j handling
          obtain rfl := Option.some.inj (here.symm.trans there)
          exact (h.owns_iff there).mp (same id controller ▸ release j id (.inl controller))
      | _ => simp [handling?, controller] at handling
    · obtain ⟨w, here, rfl⟩ := exists_worker there
      obtain ⟨s, pc⟩ := releases_iff.mp releases
      exact (h.owns_iff there).mp (release i _ (.inr ⟨w, s, here, pc, rfl⟩))
  · intro entitled
    refine ⟨?_, fun i increasing => ?_⟩
    · rintro i id (releasing | ⟨w, s, there, releasing, rfl⟩)
      · have handling : d.handling? = some i := by simp [handling?, releasing]
        obtain ⟨v, there, same⟩ := h.handled i handling
        exact same id releasing ▸ (h.owns_iff there).mpr (entitled i v there (.inl handling))
      · have there := works_getElem? there
        exact (h.owns_iff there).mpr
          (entitled i _ there (.inr (releases_iff.mpr ⟨s, releasing⟩)))
    · have handling : d.handling? = some i := by simp [handling?, increasing]
      obtain ⟨v, there, -⟩ := h.handled i handling
      exact ⟨v.owned, (h.owns_iff there).mpr (entitled i v there (.inl handling))⟩

/-! ## What one step does to the work -/

theorem notifyAll_works (d : Download) : d.notifyAll.works = d.works := by
  rw [works, works, notifyAll, List.map_map]
  refine List.map_congr_left fun w _ => ?_
  by_cases parked : w.pc = .parked
  · simp [DownloadWorker.work, DownloadWorker.phase, DownloadWorker.releases, parked]
  · simp [parked]

theorem update_works (d : Download) (i : Nat) (w : DownloadWorker) :
    (d.update i w).works = d.works.set i w.work := by
  rw [works, works, update_workers, List.map_set]

theorem update_works_same {w w' : DownloadWorker} (there : d.workers[i]? = some w)
    (same : w'.work = w.work) : (d.update i w').works = d.works := by
  obtain ⟨inside, here⟩ := List.getElem?_eq_some_iff.mp (works_getElem? there)
  rw [update_works, same, ← here]
  exact List.set_getElem_self inside

theorem setSegment_works {id : SegmentId} (ok : d.setSegment id = .ok d') : d'.works = d.works := by
  obtain ⟨complete, -, rfl⟩ := setSegment_ok ok
  split
  · exact notifyAll_works _
  · rfl

theorem unsetBusy_works {id : SegmentId} {chosen : Nat} (ok : d.unsetBusy id chosen = .ok d') :
    d'.works = d.works := by
  obtain ⟨complete, -, notified⟩ := unsetBusy_ok ok
  rcases notifyOne_ok notified with ⟨rfl, -⟩ | ⟨w, there, parked, rfl⟩
  · rfl
  · refine update_works_same there ?_
    simp [DownloadWorker.work, DownloadWorker.phase, DownloadWorker.releases, parked]

theorem setSegment_update {id : SegmentId} (ok : d.setSegment id = .ok d') (i : Nat)
    (w : DownloadWorker) : (d'.update i w).works = d.works.set i w.work ∧
      (d'.update i w).controller = d.controller :=
  ⟨by rw [update_works, setSegment_works ok],
    (update_controller d' i w).trans (setSegment_controller ok)⟩

theorem unsetBusy_update {id : SegmentId} {chosen : Nat} (ok : d.unsetBusy id chosen = .ok d')
    (i : Nat) (w : DownloadWorker) : (d'.update i w).works = d.works.set i w.work ∧
      (d'.update i w).controller = d.controller :=
  ⟨by rw [update_works, unsetBusy_works ok],
    (update_controller d' i w).trans (unsetBusy_controller ok)⟩

theorem Entitled.set_iff (h : d.Entitled last) {v v' : Work} (there : d.works[i]? = some v)
    (works : d'.works = d.works.set i v') (controller : d'.controller = d.controller) :
    d'.Entitled last ↔ (d.handling? = some i ∨ v'.releases = true → v'.Requests last i) := by
  have handling : d'.handling? = d.handling? := by rw [handling?, handling?, controller]
  obtain ⟨inside, -⟩ := List.getElem?_eq_some_iff.mp there
  rw [Entitled, works, handling]
  constructor
  · exact fun all => all i v' (by simp [inside])
  · intro own j u there'
    rcases Threads.getElem?_step there' with ⟨rfl, rfl⟩ | ⟨-, old⟩
    · exact own
    · exact h j u old

theorem Entitled.control_iff (h : d.Entitled last) (works : d'.works = d.works) :
    d'.Entitled last ↔ ∀ i ∈ d'.handling?, ∀ v ∈ d.works[i]?, v.Requests last i := by
  rw [Entitled, works]
  constructor
  · exact fun all i handling v there => all i v there (.inl handling)
  · rintro own i v there (handling | releases)
    · exact own i handling v there
    · exact h i v there (.inr releases)

theorem Entitled.mono (h : d.Entitled last) (works : d'.works = d.works)
    (controller : d'.controller = d.controller) : d'.Entitled last := by
  rw [Entitled, works, handling?, controller]
  exact h

theorem Entitled.idle (h : d.Entitled last) {v : Work} (there : d.works[i]? = some v)
    (idle : v.phase.outstanding? = none) : d.handling? ≠ some i := by
  intro handling
  obtain ⟨s, outstanding, -⟩ := h i v there (.inl handling)
  simp [idle] at outstanding

theorem note_none {i : Nat} {choice : Choice} {w : DownloadWorker} (there : d.workers[i]? = some w)
    (none : d.handsOut? w = none) : d.note (.worker i choice) last = last := by
  simp [note, there, none]

theorem yields_idle {choice : Choice} {w : DownloadWorker} (stays : w.leaves choice = false)
    (fails : w.failing? = none) (none : d.handsOut? w = none) : d.Yields last i w choice := by
  simp [Yields, stays, fails, none]

theorem advance_handsOut {w w' : DownloadWorker} {completed : Bool} {delays : HostDelays}
    {choice : Choice} (h : w.advance completed delays choice = .ok w') : d.handsOut? w = none := by
  cases pc : w.pc with
  | scan notified => simp [DownloadWorker.advance, pc] at h
  | _ => simp [handsOut?, pc]

theorem Entitled.advance_iff (h : d.Entitled last) {choice : Choice} {w w' : DownloadWorker}
    (there : d.workers[i]? = some w)
    (moved : w.advance d.complete.isCompleted (d.hosts w.host) choice = .ok w') :
    (d.update i w').Entitled last ↔ d.Yields last i w choice := by
  have old := works_getElem? there
  have leaves := DownloadWorker.advance_leaves moved
  have releases := DownloadWorker.advance_releases moved
  rw [h.set_iff old (update_works d i w') rfl]
  simp only [Yields, advance_handsOut moved, reduceCtorEq, false_implies, implies_true, and_true,
    Option.mem_def]
  rcases DownloadWorker.advance_phase moved with
    ⟨phase, -, stays⟩ | ⟨s, ⟨before, after, -⟩ | ⟨before, ended, -, outcome⟩⟩
  · -- the phase stays: only the failure of a worker begins a call
    have stays : w.leaves choice = false := by
      simpa [stays] using leaves
    have same : w'.work.Requests last i ↔ w.work.Requests last i := by
      simp only [Work.Requests, DownloadWorker.work, phase]
    rw [same]
    simp only [DownloadWorker.work, releases, stays, Bool.false_eq_true, false_implies, true_and]
    constructor
    · intro own s failing
      obtain ⟨t, outstanding, mine⟩ := own (.inr (by simp [failing]))
      rw [DownloadWorker.failing_phase failing] at outstanding
      exact Option.some.inj outstanding ▸ mine
    · rintro own (handling | fails)
      · exact h i _ old (.inl handling)
      · obtain ⟨s, failing⟩ := Option.isSome_iff_exists.mp fails
        exact ⟨s, by simp [DownloadWorker.failing_phase failing, Phase.outstanding?], own s failing⟩
  · -- a request begins
    have idle := h.idle old (by simp [DownloadWorker.work, before, Phase.outstanding?])
    have fails : w.failing? = none := by
      cases failing : w.failing? with
      | none => rfl
      | some t => simp [DownloadWorker.failing_phase failing] at before
    simp [DownloadWorker.work, releases, fails, idle]
  · have fails : w.failing? = none := by
      cases failing : w.failing? with
      | none => rfl
      | some t => simp [DownloadWorker.failing_phase failing] at before
    rcases outcome with ⟨io, after⟩ | ⟨io, after⟩
    · have ends : w.leaves choice = true := leaves.mpr ⟨ended, io⟩
      simp [DownloadWorker.work, Work.Requests, releases, fails, ends, after, Phase.outstanding?]
    · have stays : w.leaves choice = false := by simpa [io] using leaves
      have kept (handling : d.handling? = some i) : w'.work.Requests last i := by
        obtain ⟨t, outstanding, mine⟩ := h i _ old (.inl handling)
        exact ⟨t, by simpa [DownloadWorker.work, before, after, Phase.outstanding?] using outstanding, mine⟩
      simpa [DownloadWorker.work, releases, fails, stays] using kept

theorem Entitled.take_iff (h : d.Entitled last) (tenured : d.Tenured) (choice : Choice)
    {w : DownloadWorker} {notified : Bool} {segment : Segment} {complete : CompleteResource}
    (there : d.workers[i]? = some w) (pc : w.pc = .scan notified)
    (taken : d.complete.takeSegment = some (segment, complete)) :
    ({ d with complete }.update i { w with pc := .returned segment }).Entitled
        (Function.update last segment.id (some i)) ↔ d.Yields last i w choice := by
  have old := works_getElem? there
  have idle := h.idle old (by simp [DownloadWorker.work, DownloadWorker.phase, pc, Phase.outstanding?])
  have hands : d.handsOut? w = some segment := by simp [handsOut?, pc, taken]
  simp only [Yields, hands, DownloadWorker.leaves, DownloadWorker.failing?, pc, Bool.false_eq_true,
    reduceCtorEq, false_implies, implies_true, true_and, Option.mem_def, Option.some.injEq,
    forall_eq']
  constructor
  · intro entitled j mine v here same
    have there' := works_getElem? here
    by_contra acting
    have acting : d.handling? = some j ∨ v.releases = true := by
      rwa [not_and_or, not_not, Bool.not_eq_false] at acting
    have other : i ≠ j := by
      rintro rfl
      obtain rfl := Option.some.inj (there.symm.trans here)
      simp [idle, DownloadWorker.releases, pc] at acting
    obtain ⟨s, outstanding, own⟩ := entitled j v.work
      (by rwa [update_works, List.getElem?_set_ne other]) acting
    rw [← (tenured.stored there' outstanding).2.symm.trans same, Function.update_self] at own
    exact other (Option.some.inj own)
  · intro yields j u there' acting
    rw [update_works] at there'
    rcases Threads.getElem?_step there' with ⟨rfl, rfl⟩ | ⟨-, old'⟩
    · simp only [DownloadWorker.work, DownloadWorker.releases, Bool.false_eq_true, or_false] at acting
      exact absurd acting idle
    · obtain ⟨s, outstanding, own⟩ := h j u old' acting
      obtain ⟨v, here, rfl⟩ := exists_worker old'
      refine ⟨s, outstanding, ?_⟩
      by_cases same : s.id = segment.id
      · obtain ⟨waits, still⟩ := yields j (same ▸ own) v here
          ((tenured.stored old' outstanding).2.trans same)
        rcases acting with handling | releases
        · exact absurd handling waits
        · simp [DownloadWorker.work, still] at releases
      · rwa [Function.update_of_ne same]

theorem advance_due {choice : Choice} {pc : ControllerPc} (moved : d.advance choice = .ok pc) :
    ({ d with controller := pc }).handling? = d.due? := by
  cases controller : d.controller with
  | waiting =>
      obtain rfl : _ = pc := by simpa [Download.advance, controller] using moved
      cases completed : d.complete.isCompleted <;> simp [handling?, due?, controller]
  | surveying i =>
      cases there : d.workers[i]? with
      | none =>
          obtain rfl : _ = pc := by simpa [Download.advance, controller, there] using moved
          simp [handling?, due?, controller]
      | some w =>
          simp only [Download.advance, controller, there, Except.ok.injEq] at moved
          subst moved
          split <;> simp [handling?, due?, controller]
  | checking i =>
      cases there : d.workers[i]? with
      | none =>
          obtain rfl : _ = pc := by simpa [Download.advance, controller, there] using moved
          simp [handling?, due?, controller, there]
      | some w =>
          obtain rfl : _ = pc := by simpa [Download.advance, controller, there] using moved
          cases flagged : w.timeouted <;> simp [handling?, due?, controller, there, flagged]
  | loading i =>
      cases there : d.workers[i]? with
      | none => simp [Download.advance, controller, there] at moved
      | some w =>
          obtain rfl : _ = pc := by simpa [Download.advance, controller, there] using moved
          simp [handling?, due?, controller]
  | storing =>
      obtain rfl : _ = pc := by simpa [Download.advance, controller] using moved
      simp [handling?, due?, controller]
  | increasing i | releasing i id | marking i | returned => simp [Download.advance, controller] at moved

/-- From a state with the property, the condition on a step is exact. -/
theorem step_entitled_iff (h : d.Entitled last) (tenured : d.Tenured) {e : Event}
    (ok : d.step e = .ok d') : d'.Entitled (d.note e last) ↔ TimesOutRightly (d, last) e := by
  cases step_move ok with
  | @advance i choice w w' there moved =>
      rw [note_none there (advance_handsOut moved), h.advance_iff there moved]
      simp [TimesOutRightly, there]
  | @take i choice w notified segment complete there pc taken =>
      have hands : d.handsOut? w = some segment := by simp [handsOut?, pc, taken]
      have noted : d.note (.worker i choice) last = Function.update last segment.id (some i) := by
        simp [note, there, hands]
      rw [noted, h.take_iff tenured choice there pc taken]
      simp [TimesOutRightly, there]
  | @park i choice w notified there pc missing =>
      have hands : d.handsOut? w = none := by simp [handsOut?, pc, missing]
      have old := works_getElem? there
      have idle := h.idle old (by simp [DownloadWorker.work, DownloadWorker.phase, pc, Phase.outstanding?])
      have yields : d.Yields last i w choice :=
        yields_idle (by simp [DownloadWorker.leaves, pc]) (by simp [DownloadWorker.failing?, pc]) hands
      rw [note_none there hands, h.set_iff old (update_works _ _ _) rfl]
      simp [TimesOutRightly, there, yields, idle, DownloadWorker.work, DownloadWorker.releases]
  | @complete i choice w segment next there pc set =>
      have hands : d.handsOut? w = none := by simp [handsOut?, pc]
      have old := works_getElem? there
      have idle := h.idle old (by simp [DownloadWorker.work, DownloadWorker.phase, pc, Phase.outstanding?])
      have yields : d.Yields last i w choice :=
        yields_idle (by simp [DownloadWorker.leaves, pc]) (by simp [DownloadWorker.failing?, pc]) hands
      obtain ⟨works, controller⟩ := setSegment_update set i { w with pc := .loopTest }
      rw [note_none there hands, h.set_iff old works controller]
      simp [TimesOutRightly, there, yields, idle, DownloadWorker.work, DownloadWorker.releases]
  | @fail i choice w segment next there pc unset =>
      have hands : d.handsOut? w = none := by simp [handsOut?, pc]
      obtain ⟨works, controller⟩ := unsetBusy_update unset i { w with pc := .terminating }
      rw [note_none there hands, h.set_iff (works_getElem? there) works controller]
      simp [TimesOutRightly, there, Yields, hands, DownloadWorker.leaves, DownloadWorker.failing?, pc,
        DownloadWorker.work, DownloadWorker.phase, DownloadWorker.releases, Work.Requests,
        Phase.outstanding?]
  | @wake i w there parked =>
      refine iff_of_true (h.mono ?_ rfl) trivial
      refine update_works_same there ?_
      simp [DownloadWorker.work, DownloadWorker.phase, DownloadWorker.releases, parked]
  | @close i w there => exact iff_of_true (h.mono (update_works_same there rfl) rfl) trivial
  | control moved =>
      refine Iff.trans (h.control_iff rfl) ?_
      rw [advance_due moved]
      refine forall₂_congr fun i due => ?_
      simp only [works, List.getElem?_map, Option.mem_def, Option.map_eq_some_iff,
        forall_exists_index, and_imp, forall_apply_eq_imp_iff₂]
  | @increase i choice w pc there =>
      refine Iff.trans (h.control_iff rfl) ?_
      simp [TimesOutRightly, handling?, due?, pc]
  | @release i id choice next pc unset =>
      have works := unsetBusy_works unset
      refine Iff.trans (h.control_iff (by exact works)) ?_
      simp [TimesOutRightly, handling?, due?, pc]
  | @mark i choice w pc there =>
      refine Iff.trans (h.control_iff (update_works_same there rfl)) ?_
      simp [TimesOutRightly, handling?, due?, pc]

theorem Tenured.handled_set (h : d.Tenured) {v v' : Work} (there : d.works[i]? = some v)
    (works : d'.works = d.works.set i v') (controller : d'.controller = d.controller)
    (owned : d.handling? = some i → v'.owned = v.owned) : ∀ j, d'.handling? = some j →
      ∃ u, d'.works[j]? = some u ∧ ∀ id, d'.controller = .releasing j id → id = u.owned := by
  intro j handling
  rw [handling?, controller] at handling
  obtain ⟨u, old, same⟩ := h.handled j handling
  rw [works, controller]
  by_cases own : i = j
  · subst own
    obtain rfl := Option.some.inj (old.symm.trans there)
    obtain ⟨inside, -⟩ := List.getElem?_eq_some_iff.mp there
    exact ⟨v', by simp [inside], fun id releasing => (same id releasing).trans (owned handling).symm⟩
  · exact ⟨u, by rwa [List.getElem?_set_ne own], same⟩

theorem advance_handled {choice : Choice} {pc : ControllerPc} (moved : d.advance choice = .ok pc)
    (handling : ({ d with controller := pc } : Download).handling? = some i) :
    ∃ v, d.works[i]? = some v ∧ ∀ id, pc = .releasing i id → id = v.owned := by
  rw [advance_due moved] at handling
  cases controller : d.controller with
  | checking j =>
      cases there : d.workers[j]? with
      | none => simp [due?, controller, there] at handling
      | some w =>
          obtain rfl : _ = pc := by simpa [Download.advance, controller, there] using moved
          obtain ⟨flagged, rfl⟩ : w.timeouted = true ∧ j = i := by
            simpa [due?, controller, there] using handling
          exact ⟨w.work, works_getElem? there, by simp [flagged]⟩
  | loading j =>
      obtain rfl : j = i := by simpa [due?, controller] using handling
      cases there : d.workers[j]? with
      | none => simp [Download.advance, controller, there] at moved
      | some w =>
          obtain rfl : _ = pc := by simpa [Download.advance, controller, there] using moved
          exact ⟨w.work, works_getElem? there, by simp [DownloadWorker.work]⟩
  | _ => simp [due?, controller] at handling

theorem Tenured.step (h : d.Tenured) (entitled : d.Entitled last) {e : Event}
    (ok : d.step e = .ok d') : d'.Tenured := by
  refine ⟨fun i w' there => ?_, ?_⟩
  · obtain ⟨w, old, became⟩ := step_becomes ok there
    exact step_resource ok ▸ (h.equipped i w old).becomes rfl became
  cases step_move ok with
  | @advance i choice w w' there moved =>
      have old := works_getElem? there
      refine h.handled_set old (update_works d i w') rfl fun handling => ?_
      rcases DownloadWorker.advance_phase moved with
        ⟨-, owned, -⟩ | ⟨s, ⟨before, -, -⟩ | ⟨-, -, owned, -⟩⟩
      · exact owned
      · exact absurd handling
          (entitled.idle old (by simp [DownloadWorker.work, before, Phase.outstanding?]))
      · exact owned
  | take there _ _ | park there _ _ =>
      exact h.handled_set (works_getElem? there) (update_works _ _ _) rfl fun _ => rfl
  | @complete i choice w segment next there pc set =>
      obtain ⟨works, controller⟩ := setSegment_update set i { w with pc := .loopTest }
      exact h.handled_set (works_getElem? there) works controller fun _ => rfl
  | @fail i choice w segment next there pc unset =>
      obtain ⟨works, controller⟩ := unsetBusy_update unset i { w with pc := .terminating }
      exact h.handled_set (works_getElem? there) works controller fun _ => rfl
  | wake there _ | close there =>
      exact h.handled_set (works_getElem? there) (update_works _ _ _) rfl fun _ => rfl
  | control moved => exact fun i => advance_handled moved
  | increase _ _ | release _ _ | mark _ _ => simp [handling?]

theorem start_tenured (resource : Resource) (possessors : List HostPtr)
    (delays : HostPtr → HostDelays) : (start resource possessors delays).Tenured where
  equipped i w there := (reach_equipped .refl).2 i w there
  handled := by simp [handling?, start]

theorem start_entitled (resource : Resource) (possessors : List HostPtr)
    (delays : HostPtr → HostDelays) (last : History) :
    (start resource possessors delays).Entitled last := by
  intro i v there acting
  obtain ⟨w, here, rfl⟩ := exists_worker there
  obtain ⟨host, -, rfl⟩ := List.mem_map.mp (List.mem_of_getElem? here)
  simp [handling?, start, DownloadWorker.work, DownloadWorker.releases] at acting

/-- Where `check_timeout` acts only on owners, and workers yield to it, every release is made for the
owner of the segment, however often it is released. -/
theorem reach_releasesOwned {resource : Resource} {possessors : List HostPtr}
    {delays : HostPtr → HostDelays} {p : Download × History}
    (h : Reach (observed step note) TimesOutRightly (start resource possessors delays, fun _ => none) p) :
    p.1.ReleasesOwned p.2 := by
  have kept : p.1.Tenured ∧ p.1.Entitled p.2 := by
    induction h with
    | refl =>
        exact ⟨start_tenured resource possessors delays, start_entitled resource possessors delays _⟩
    | tail _ rightly ok ih =>
        obtain ⟨tenured, entitled⟩ := ih
        obtain ⟨move, noted⟩ := observed_ok.mp ok
        exact ⟨tenured.step entitled move,
          noted ▸ (step_entitled_iff entitled tenured move).mpr rightly⟩
  exact kept.1.releasesOwned_iff.mpr kept.2

/-- The third tick of one request: its segment is released for the second time. -/
theorem releasing_releasesOwned : ∃ p : Download × History,
    p.1.controller = .releasing 0 0 ∧ p.1.complete.downloadable 0 = true ∧ p.1.ReleasesOwned p.2 := by
  obtain ⟨p, run, releasing⟩ := exists_reach_of_exec (observed step note) TimesOutRightly
    (start { size := 1024, name := [97] } [0] fun _ => { banTime := 0 }, fun _ => none)
    (List.replicate 6 (.worker 0 {}) ++ List.replicate 18 (.controller {}))
    (fun p => p.1.controller = .releasing 0 0 ∧ p.1.complete.downloadable 0 = true) (by decide)
  obtain ⟨releasing, again⟩ := of_decide_eq_true releasing
  exact ⟨p, releasing, again, reach_releasesOwned run⟩

/-- Two ticks while the only worker connects: the id released is that of no segment. -/
theorem releasesOwned_fails : ¬∀ (resource : Resource) (possessors : List HostPtr)
    (delays : HostPtr → HostDelays) (p : Download × History),
    Reach (observed step note) Anything (start resource possessors delays, fun _ => none) p →
    p.1.ReleasesOwned p.2 := by
  intro claim
  obtain ⟨p, run, bad⟩ := exists_reach_of_exec (observed step note) Anything
    (start { size := 1024, name := [97] } [0] fun _ => { banTime := 0 }, fun _ => none)
    (List.replicate 10 (.controller {}))
    (fun p => p.1.controller = .releasing 0 noSegmentId ∧
      ¬noSegmentId < p.1.complete.resource.calcSegmentsCount) (by decide)
  obtain ⟨releasing, outside⟩ := of_decide_eq_true bad
  exact outside ((claim _ _ _ p run).release 0 noSegmentId (.inl releasing)).1

end Download

end SimpleP2P
