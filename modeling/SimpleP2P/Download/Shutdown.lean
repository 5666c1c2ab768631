import SimpleP2P.Download.Contents
import SimpleP2P.Library.Measure
import Mathlib.Tactic.Ring

namespace SimpleP2P
open Library

namespace DownloadWorker

def stepsLeft (w : DownloadWorker) : Nat :=
  match w.pc with
  | .banTest => 10
  | .banWait => 9
  | .completionTest _ => 8
  | .scan _ => 7
  | .returned _ => 6
  | .requesting _ => 5
  | .receiving _ => 4
  | .clearing _ | .failing _ => 3
  | .completing _ | .releasing _ | .connecting => 2
  | .loopTest | .terminating => 1
  | .parked | .finished => 0

def mayNotify (w : DownloadWorker) : Bool :=
  match w.pc with
  | .loopTest | .terminating | .finished => false
  | _ => true

variable {w w' : DownloadWorker} {completed : Bool} {delays : HostDelays} {choice : Choice}

theorem stepsLeft_le (w : DownloadWorker) : w.stepsLeft ≤ 10 := by
  unfold stepsLeft
  split <;> omega

theorem advance_closed (closed : w.closed = true) (h : w.advance completed delays choice = .ok w') :
    w'.stepsLeft < w.stepsLeft ∧ (w'.mayNotify = true → w.mayNotify = true) := by
  cases pc : w.pc with
  | loopTest =>
      simp only [advance, pc, closed, if_true, Except.ok.injEq] at h
      subst h
      simp [stepsLeft, mayNotify, pc]
  | completionTest notified =>
      simp only [advance, pc, Except.ok.injEq] at h
      subst h
      cases completed <;> simp [stepsLeft, mayNotify, pc]
  | banTest =>
      simp only [advance, pc, Except.ok.injEq] at h
      subst h
      cases banned : delays.isRetarded choice.now <;> simp [stepsLeft, mayNotify, pc]
  | returned s =>
      simp only [advance, pc] at h
      split at h <;> (obtain rfl := Except.ok.inj h; simp [stepsLeft, mayNotify, pc])
  | failing s =>
      simp only [advance, pc] at h
      split at h
      · obtain rfl := Except.ok.inj h
        simp [stepsLeft, mayNotify, pc]
      · contradiction
  | connecting | requesting s | receiving s =>
      simp only [advance, pc, Except.ok.injEq] at h
      subst h
      cases io : choice.io <;> simp [stepsLeft, mayNotify, pc]
  | banWait | clearing s | terminating =>
      simp only [advance, pc, Except.ok.injEq] at h
      subst h
      simp [stepsLeft, mayNotify, pc]
  | scan notified | parked | completing s | releasing s | finished => simp [advance, pc] at h

theorem advance_kept (h : w.advance completed delays choice = .ok w') :
    (w.closed = true → w'.closed = true) ∧ w.pc ≠ .finished := by
  cases pc : w.pc with
  | returned s =>
      simp only [advance, pc] at h
      split at h <;> (obtain rfl := Except.ok.inj h; simp)
  | failing s =>
      simp only [advance, pc] at h
      split at h
      · obtain rfl := Except.ok.inj h
        simp
      · contradiction
  | scan notified | parked | completing s | releasing s | finished => simp [advance, pc] at h
  | _ =>
      simp only [advance, pc, Except.ok.injEq] at h
      subst h
      simp

end DownloadWorker

namespace Download

variable {d d' : Download} {e : Event} {i : Nat} {w w' : DownloadWorker}

theorem notifyAll_countP (d : Download) :
    d.notifyAll.workers.countP (·.mayNotify) = d.workers.countP (·.mayNotify) := by
  rw [notifyAll, List.countP_map]
  apply List.countP_congr
  intro w _
  by_cases parked : w.pc = .parked <;> simp [parked, DownloadWorker.mayNotify]

theorem setSegment_countP {id : SegmentId} (ok : d.setSegment id = .ok d') :
    d'.workers.length = d.workers.length ∧
      d'.workers.countP (·.mayNotify) = d.workers.countP (·.mayNotify) := by
  obtain ⟨complete, -, rfl⟩ := setSegment_ok ok
  split
  · exact ⟨List.length_map _, notifyAll_countP _⟩
  · exact ⟨rfl, rfl⟩

theorem unsetBusy_countP {id : SegmentId} {chosen : Nat} (ok : d.unsetBusy id chosen = .ok d') :
    d'.workers.length = d.workers.length ∧
      d'.workers.countP (·.mayNotify) = d.workers.countP (·.mayNotify) := by
  obtain ⟨complete, -, notified⟩ := unsetBusy_ok ok
  rcases notifyOne_ok notified with ⟨rfl, -⟩ | ⟨w, there, parked, rfl⟩
  · exact ⟨rfl, rfl⟩
  · have count := Threads.countP_step (·.mayNotify) { w with pc := .completionTest true } there
    simp only [DownloadWorker.mayNotify, parked, if_true] at count
    exact ⟨List.length_set, by simpa [DownloadWorker.mayNotify] using count⟩

theorem step_length (ok : d.step e = .ok d') : d'.workers.length = d.workers.length := by
  cases step_move ok with
  | complete there pc set => exact List.length_set.trans (setSegment_countP set).1
  | fail there pc unset => exact List.length_set.trans (unsetBusy_countP unset).1
  | release pc unset => exact (unsetBusy_countP unset).1
  | control moved => rfl
  | increase pc there => rfl
  | _ => exact List.length_set

theorem step_returned (returned : d.controller = .returned) (ok : d.step e = .ok d') :
    d'.controller = .returned ∧ ∀ choice, e ≠ .controller choice := by
  cases step_move ok with
  | complete there pc set => exact ⟨(setSegment_controller set).trans returned, by simp⟩
  | fail there pc unset => exact ⟨(unsetBusy_controller unset).trans returned, by simp⟩
  | control moved => simp [advance, returned] at moved
  | increase pc there => simp [returned] at pc
  | release pc unset => simp [returned] at pc
  | mark pc there => simp [returned] at pc
  | _ => exact ⟨returned, by simp⟩

def Kept (w w' : DownloadWorker) : Prop :=
  (w.closed = true → w'.closed = true) ∧ (w.pc = .finished → w'.pc = .finished)

theorem Notified.kept (h : Notified w w') : Kept w w' := by
  rcases h with rfl | ⟨parked, rfl⟩
  · exact ⟨id, id⟩
  · exact ⟨id, fun finished => absurd (parked.symm.trans finished) (by simp)⟩

theorem Kept.refl (w : DownloadWorker) : Kept w w := ⟨id, id⟩

theorem Kept.set {workers : List DownloadWorker} {j : Nat} {v v' : DownloadWorker}
    (acting : workers[j]? = some v) (there : (workers.set j v')[i]? = some w') (own : Kept v v') :
    ∃ w, workers[i]? = some w ∧ Kept w w' := by
  rcases Threads.getElem?_step there with ⟨rfl, rfl⟩ | ⟨-, old⟩
  · exact ⟨v, acting, own⟩
  · exact ⟨w', old, .refl w'⟩

theorem step_kept (ok : d.step e = .ok d') (there : d'.workers[i]? = some w') :
    ∃ w, d.workers[i]? = some w ∧ Kept w w' := by
  cases step_move ok with
  | advance acting moved =>
      obtain ⟨closed, unfinished⟩ := DownloadWorker.advance_kept moved
      exact Kept.set acting there ⟨closed, fun finished => absurd finished unfinished⟩
  | take acting pc taken => exact Kept.set acting there ⟨id, by simp [pc]⟩
  | park acting pc missing => exact Kept.set acting there ⟨id, by simp [pc]⟩
  | @complete j _ v segment next acting pc set =>
      rcases Threads.getElem?_step there with ⟨rfl, rfl⟩ | ⟨-, old⟩
      · exact ⟨v, acting, id, by simp [pc]⟩
      · obtain ⟨w, here, notified⟩ := setSegment_worker set old
        exact ⟨w, here, notified.kept⟩
  | @fail j _ v segment next acting pc unset =>
      rcases Threads.getElem?_step there with ⟨rfl, rfl⟩ | ⟨-, old⟩
      · exact ⟨v, acting, id, by simp [pc]⟩
      · obtain ⟨w, here, notified⟩ := unsetBusy_worker unset old
        exact ⟨w, here, notified.kept⟩
  | wake acting parked => exact Kept.set acting there ⟨id, by simp [parked]⟩
  | close acting => exact Kept.set acting there ⟨fun _ => rfl, id⟩
  | control moved => exact ⟨w', there, .refl w'⟩
  | increase pc acting => exact ⟨w', there, .refl w'⟩
  | release pc unset =>
      obtain ⟨w, here, notified⟩ := unsetBusy_worker unset there
      exact ⟨w, here, notified.kept⟩
  | mark pc acting => exact Kept.set acting there ⟨id, id⟩

end Download

inductive DestructorPc
  | running
  | closing (i : Nat)
  | joining (i : Nat)
  | destroyed
  deriving DecidableEq, Repr

structure DownloadService where
  download : Download
  destructor : DestructorPc := .running

namespace DestructorPc

def HasClosed (pc : DestructorPc) (i : Nat) : Prop :=
  match pc with
  | .running => False
  | .closing n => i < n
  | .joining _ | .destroyed => True

def HasJoined (pc : DestructorPc) (i : Nat) : Prop :=
  match pc with
  | .running | .closing _ => False
  | .joining n => i < n
  | .destroyed => True

def Joins (pc : DestructorPc) : Prop :=
  match pc with
  | .running | .closing _ => False
  | .joining _ | .destroyed => True

end DestructorPc

namespace DownloadService

def start (resource : Resource) (possessors : List HostPtr) (delays : HostPtr → HostDelays) :
    DownloadService where
  download := .start resource possessors delays

/-- `close_workers` and `join_workers`, a worker at a time; `join` waits for the end of a thread. -/
def destroy (s : DownloadService) : Except Halt DownloadService :=
  match s.destructor with
  | .running =>
      if s.download.controller = .returned then .ok { s with destructor := .closing 0 }
      else .error .blocked
  | .closing i =>
      if i < s.download.workers.length then do
        return { download := ← s.download.step (.close i), destructor := .closing (i + 1) }
      else .ok { s with destructor := .joining 0 }
  | .joining i =>
      match s.download.workers[i]? with
      | some w =>
          if w.pc = .finished then .ok { s with destructor := .joining (i + 1) }
          else .error .blocked
      | none => .ok { s with destructor := .destroyed }
  | .destroyed => .error .blocked

inductive Event
  | download (e : Download.Event)
  | destructor
  deriving DecidableEq, Repr

def step (s : DownloadService) : Event → Except Halt DownloadService
  | .download (.close _) => .error .blocked
  | .download e => do return { s with download := ← s.download.step e }
  | .destructor => s.destroy

/-- Every event but the spurious end of a wait. -/
def Prompt : Event → Prop
  | .download (.wake _) => False
  | _ => True

inductive Move (s : DownloadService) : Event → DownloadService → Prop
  | download {e : Download.Event} {d : Download} : (∀ i, e ≠ .close i) → s.download.step e = .ok d →
      Move s (.download e) { s with download := d }
  | begin : s.destructor = .running → s.download.controller = .returned →
      Move s .destructor { s with destructor := .closing 0 }
  | close {i : Nat} {d : Download} : s.destructor = .closing i → s.download.step (.close i) = .ok d →
      Move s .destructor { download := d, destructor := .closing (i + 1) }
  | closed {i : Nat} : s.destructor = .closing i → s.download.workers.length ≤ i →
      Move s .destructor { s with destructor := .joining 0 }
  | join {i : Nat} {w : DownloadWorker} : s.destructor = .joining i →
      s.download.workers[i]? = some w → w.pc = .finished →
      Move s .destructor { s with destructor := .joining (i + 1) }
  | joined {i : Nat} : s.destructor = .joining i → s.download.workers[i]? = none →
      Move s .destructor { s with destructor := .destroyed }

variable {s s' : DownloadService}

theorem step_move {e : Event} (ok : s.step e = .ok s') : s.Move e s' := by
  cases e with
  | download e =>
      cases e with
      | close i => contradiction
      | _ =>
          obtain ⟨d, moved, ended⟩ := bind_eq_ok.mp ok
          obtain rfl := Except.ok.inj ended
          exact .download (by simp) moved
  | destructor =>
      change s.destroy = _ at ok
      unfold destroy at ok
      split at ok
      · rename_i running
        split at ok
        · rename_i returned
          exact Except.ok.inj ok ▸ .begin running returned
        · contradiction
      · rename_i i closing
        split at ok
        · obtain ⟨d, closed, ended⟩ := bind_eq_ok.mp ok
          exact Except.ok.inj ended ▸ .close closing closed
        · rename_i whole
          exact Except.ok.inj ok ▸ .closed closing (Nat.le_of_not_lt whole)
      · rename_i i joining
        split at ok
        · rename_i w there
          split at ok
          · rename_i finished
            exact Except.ok.inj ok ▸ .join joining there finished
          · contradiction
        · rename_i missing
          exact Except.ok.inj ok ▸ .joined joining missing
      · contradiction

structure InTurn (n : Nat) (s : DownloadService) : Prop where
  count : s.download.workers.length = n
  returned : s.destructor ≠ .running → s.download.controller = .returned
  closed : ∀ (i : Nat) (w : DownloadWorker), s.download.workers[i]? = some w →
    s.destructor.HasClosed i → w.closed = true
  joined : ∀ (i : Nat) (w : DownloadWorker), s.download.workers[i]? = some w →
    s.destructor.HasJoined i → w.pc = .finished
  within : ∀ i, s.destructor = .joining i → i ≤ n

theorem InTurn.start (resource : Resource) (possessors : List HostPtr)
    (delays : HostPtr → HostDelays) :
    (start resource possessors delays).InTurn possessors.length where
  count := List.length_map _
  returned stopping := absurd rfl stopping
  closed _ _ _ stopping := stopping.elim
  joined _ _ _ stopping := stopping.elim
  within _ joining := by simp [DownloadService.start] at joining

theorem InTurn.step {n : Nat} (h : s.InTurn n) {e : Event} (ok : s.step e = .ok s') : s'.InTurn n := by
  cases step_move ok with
  | @download e d other moved =>
      refine ⟨(Download.step_length moved).trans h.count, fun stopping => ?_, ?_, ?_, h.within⟩
      · exact (Download.step_returned (h.returned stopping) moved).1
      · intro i w' there closed
        obtain ⟨w, old, kept⟩ := Download.step_kept moved there
        exact kept.1 (h.closed i w old closed)
      · intro i w' there joined
        obtain ⟨w, old, kept⟩ := Download.step_kept moved there
        exact kept.2 (h.joined i w old joined)
  | begin running returned =>
      exact ⟨h.count, fun _ => returned, fun _ _ _ closed => absurd closed (Nat.not_lt_zero _),
        fun _ _ _ joined => joined.elim, by simp⟩
  | @close i d closing moved =>
      refine ⟨(Download.step_length moved).trans h.count, fun _ => ?_, ?_, fun _ _ _ joined => joined.elim,
        by simp⟩
      · exact (Download.step_returned (h.returned (by simp [closing])) moved).1
      · intro j w' there closed
        obtain ⟨w, old, kept⟩ := Download.step_kept moved there
        rcases Nat.lt_succ_iff_lt_or_eq.mp closed with before | rfl
        · exact kept.1 (h.closed j w old (by simpa [closing, DestructorPc.HasClosed] using before))
        · cases Download.step_move moved with
          | close acting =>
              rcases Threads.getElem?_step there with ⟨-, rfl⟩ | ⟨other, -⟩
              · rfl
              · exact absurd rfl other
  | @closed i closing whole =>
      refine ⟨h.count, fun _ => h.returned (by simp [closing]), fun j w there _ => ?_,
        fun _ _ _ joined => absurd joined (Nat.not_lt_zero _), ?_⟩
      · obtain ⟨inside, -⟩ := List.getElem?_eq_some_iff.mp there
        refine h.closed j w there ?_
        rw [closing]
        exact Nat.lt_of_lt_of_le inside whole
      · rintro i ⟨⟩
        exact Nat.zero_le n
  | @join i w joining there finished =>
      refine ⟨h.count, fun _ => h.returned (by simp [joining]), fun j w there _ => ?_, ?_, ?_⟩
      · exact h.closed j w there (by rw [joining]; trivial)
      · intro j w' there' joined
        rcases Nat.lt_succ_iff_lt_or_eq.mp joined with before | rfl
        · exact h.joined j w' there' (by rw [joining]; exact before)
        · obtain rfl := Option.some.inj (there.symm.trans there')
          exact finished
      · rintro j ⟨⟩
        obtain ⟨inside, -⟩ := List.getElem?_eq_some_iff.mp there
        exact h.count ▸ inside
  | @joined i joining missing =>
      refine ⟨h.count, fun _ => h.returned (by simp [joining]), fun j w there _ => ?_, ?_, by simp⟩
      · exact h.closed j w there (by rw [joining]; trivial)
      · intro j w there _
        obtain ⟨inside, -⟩ := List.getElem?_eq_some_iff.mp there
        have outside := List.getElem?_eq_none_iff.mp missing
        refine h.joined j w there ?_
        rw [joining]
        exact Nat.lt_of_lt_of_le inside outside

/-! ## The number of steps -/

def joinsLeft (s : DownloadService) : Nat :=
  match s.destructor with
  | .joining i => s.download.workers.length + 1 - i
  | _ => 0

def stepsLeft (s : DownloadService) : Nat :=
  Threads.weight DownloadWorker.stepsLeft 10 DownloadWorker.mayNotify s.download.workers + s.joinsLeft

theorem download_decreases {d d' : Download} {e : Download.Event}
    (returned : d.controller = .returned) (closed : ∀ w ∈ d.workers, w.closed = true)
    (other : ∀ i, e ≠ .close i) (prompt : ∀ i, e ≠ .wake i) (ok : d.step e = .ok d') :
    Threads.weight DownloadWorker.stepsLeft 10 DownloadWorker.mayNotify d'.workers <
      Threads.weight DownloadWorker.stepsLeft 10 DownloadWorker.mayNotify d.workers := by
  have silent := (Download.step_returned returned ok).2
  cases Download.step_move ok with
  | advance there moved =>
      obtain ⟨less, kept⟩ := DownloadWorker.advance_closed (closed _ (List.mem_of_getElem? there)) moved
      exact Threads.weight_own there less kept
  | take there pc taken =>
      exact Threads.weight_own there (by simp [DownloadWorker.stepsLeft, pc])
        (by simp [DownloadWorker.mayNotify, pc])
  | park there pc missing =>
      exact Threads.weight_own there (by simp [DownloadWorker.stepsLeft, pc])
        (by simp [DownloadWorker.mayNotify, pc])
  | @complete i _ w segment next there pc set =>
      obtain ⟨length, same⟩ := Download.setSegment_countP set
      have there' := Download.setSegment_getElem? set there (by simp [pc])
      have count := Threads.countP_step (·.mayNotify) { w with pc := .loopTest } there'
      simp only [DownloadWorker.mayNotify, pc, if_true, Bool.false_eq_true, if_false] at count
      refine Threads.weight_spend DownloadWorker.stepsLeft_le (List.length_set.trans length) ?_
      rw [← same]
      exact Nat.lt_of_succ_le (Nat.le_of_eq count)
  | @fail i _ w segment next there pc unset =>
      obtain ⟨length, same⟩ := Download.unsetBusy_countP unset
      have there' := Download.unsetBusy_getElem? unset there (by simp [pc])
      have count := Threads.countP_step (·.mayNotify) { w with pc := .terminating } there'
      simp only [DownloadWorker.mayNotify, pc, if_true, Bool.false_eq_true, if_false] at count
      refine Threads.weight_spend DownloadWorker.stepsLeft_le (List.length_set.trans length) ?_
      rw [← same]
      exact Nat.lt_of_succ_le (Nat.le_of_eq count)
  | wake there parked => exact absurd rfl (prompt _)
  | close there => exact absurd rfl (other _)
  | control moved => exact absurd rfl (silent _)
  | increase pc there => exact absurd rfl (silent _)
  | release pc unset => exact absurd rfl (silent _)
  | mark pc there => exact absurd rfl (silent _)

/-- Once the workers are closed, every step brings the destructor closer to its end. -/
theorem decreases (n : Nat) :
    Decreases step Prompt (fun s => s.InTurn n ∧ s.destructor.Joins) stepsLeft := by
  intro s e s' ⟨inTurn, joins⟩ prompt ok
  have inTurn' := inTurn.step ok
  cases step_move ok with
  | @download e d other moved =>
      refine ⟨⟨inTurn', joins⟩, ?_⟩
      have running : s.destructor ≠ .running := by
        intro running
        simp [running, DestructorPc.Joins] at joins
      have closed : ∀ w ∈ s.download.workers, w.closed = true := by
        intro w member
        obtain ⟨i, there⟩ := List.mem_iff_getElem?.mp member
        refine inTurn.closed i w there ?_
        cases pc : s.destructor <;> simp_all [DestructorPc.Joins, DestructorPc.HasClosed]
      have less := download_decreases (inTurn.returned running) closed other
        (fun i wake => by simp [wake, Prompt] at prompt) moved
      have same : joinsLeft { s with download := d } = s.joinsLeft := by
        simp only [joinsLeft, Download.step_length moved]
      simp only [stepsLeft, same]
      omega
  | begin running _ => simp [running, DestructorPc.Joins] at joins
  | close closing _ => simp [closing, DestructorPc.Joins] at joins
  | closed closing _ => simp [closing, DestructorPc.Joins] at joins
  | @join i w joining there _ =>
      refine ⟨⟨inTurn', trivial⟩, ?_⟩
      obtain ⟨inside, -⟩ := List.getElem?_eq_some_iff.mp there
      simp only [stepsLeft, joinsLeft, joining]
      omega
  | @joined i joining missing =>
      refine ⟨⟨inTurn', trivial⟩, ?_⟩
      have within := inTurn.count ▸ inTurn.within i joining
      simp only [stepsLeft, joinsLeft, joining]
      omega

theorem InTurn.stepsLeft_le {n : Nat} (h : s.InTurn n) : s.stepsLeft ≤ 10 * n ^ 2 + 12 * n + 1 := by
  have weight : Threads.weight DownloadWorker.stepsLeft 10 DownloadWorker.mayNotify
      s.download.workers ≤ _ := Threads.weight_le DownloadWorker.stepsLeft_le _
  have joins : s.joinsLeft ≤ n + 1 := by
    simp only [joinsLeft]
    split
    · rw [h.count]
      omega
    · omega
  have square : n * (n * 10 + 1) + n * 10 + (n + 1) = 10 * n ^ 2 + 12 * n + 1 := by ring
  rw [h.count] at weight
  simp only [stepsLeft]
  omega

/-! ## Where it ends -/

/-- The text of the exception is read behind its end. -/
def Misreads (w : DownloadWorker) : Prop :=
  ∃ segment, w.pc = .failing segment ∧ failureTextLength < segment.id.toNat

theorem exists_notified (d : Download) : ∃ chosen d', d.notifyOne chosen = .ok d' := by
  by_cases waiting : d.workers.any (·.pc = .parked)
  · obtain ⟨w, member, parked⟩ := List.any_eq_true.mp waiting
    obtain ⟨chosen, there⟩ := List.mem_iff_getElem?.mp member
    have parked' : w.pc = .parked := by simpa using parked
    exact ⟨chosen, _, by simp only [Download.notifyOne, waiting, there, parked', if_true]; rfl⟩
  · exact ⟨0, d, by simp only [Download.notifyOne, waiting]; rfl⟩

theorem exists_worker_step {d : Download} {i : Nat} {w : DownloadWorker}
    (there : d.workers[i]? = some w) (equipped : Download.Equipped d.complete.resource w) :
    w.pc = .finished ∨ w.pc = .parked ∨ Misreads w ∨
      ∃ choice d', d.step (.worker i choice) = .ok d' := by
  cases pc : w.pc with
  | finished => exact .inl rfl
  | parked => exact .inr (.inl rfl)
  | failing segment =>
      by_cases short : segment.id.toNat ≤ failureTextLength
      · refine .inr (.inr (.inr ⟨{}, ?_⟩))
        simp only [Download.step, there, Download.workerStep, DownloadWorker.advance, pc, short, if_true]
        exact ⟨_, rfl⟩
      · exact .inr (.inr (.inl ⟨segment, pc, Nat.lt_of_not_le short⟩))
  | scan notified =>
      refine .inr (.inr (.inr ⟨{}, ?_⟩))
      simp only [Download.step, there, Download.workerStep, pc]
      cases d.complete.takeSegment with
      | some taken => exact ⟨_, rfl⟩
      | none => exact ⟨_, rfl⟩
  | completing segment =>
      obtain ⟨below, -⟩ := equipped.placed segment (by simp [DownloadWorker.phase, pc, Phase.segment?])
      have set := CompleteResource.setSegment_ok.mpr ⟨UInt16.lt_iff_toNat_lt.mp below, rfl⟩
      refine .inr (.inr (.inr ⟨{}, ?_⟩))
      simp only [Download.step, there, Download.workerStep, pc, Download.setSegment, set]
      exact ⟨_, rfl⟩
  | releasing segment =>
      obtain ⟨below, -⟩ := equipped.placed segment (by simp [DownloadWorker.phase, pc, Phase.segment?])
      have owned := equipped.owned segment (by simp [DownloadWorker.phase, pc, Phase.stored?])
      have unset := CompleteResource.unsetBusy_ok.mpr ⟨UInt16.lt_iff_toNat_lt.mp below, rfl⟩
      obtain ⟨chosen, next, notified⟩ := exists_notified { d with complete := _ }
      refine .inr (.inr (.inr ⟨{ notified := chosen }, ?_⟩))
      simp only [Download.step, there, Download.workerStep, pc, owned]
      refine ⟨_, bind_eq_ok.mpr ⟨next, bind_eq_ok.mpr ⟨_, mapError_ok.mpr unset, notified⟩, rfl⟩⟩
  | _ =>
      refine .inr (.inr (.inr ⟨{}, ?_⟩))
      simp only [Download.step, there, Download.workerStep, DownloadWorker.advance, pc]
      first | exact ⟨_, rfl⟩ | (split <;> exact ⟨_, rfl⟩)

theorem worker_stuck {d : Download} {i : Nat} {w : DownloadWorker} {choice : Choice} {d' : Download}
    (there : d.workers[i]? = some w) (stuck : w.pc = .finished ∨ w.pc = .parked ∨ Misreads w) :
    d.step (.worker i choice) ≠ .ok d' := by
  intro ok
  rw [Download.step, there] at ok
  rcases stuck with pc | pc | ⟨segment, pc, long⟩
  · simp [Download.workerStep, DownloadWorker.advance, pc, bind, Except.bind] at ok
  · simp [Download.workerStep, DownloadWorker.advance, pc, bind, Except.bind] at ok
  · simp [Download.workerStep, DownloadWorker.advance, pc, Nat.not_le.mpr long, bind, Except.bind] at ok

theorem InTurn.destroyed {n : Nat} (h : s.InTurn n) (destroyed : s.destructor = .destroyed) :
    ∀ w ∈ s.download.workers, w.pc = .finished := by
  intro w member
  obtain ⟨i, there⟩ := List.mem_iff_getElem?.mp member
  exact h.joined i w there (by rw [destroyed]; trivial)

theorem InTurn.quiet_of_destroyed {n : Nat} (h : s.InTurn n) (destroyed : s.destructor = .destroyed) :
    Quiet DownloadService.step (fun _ => True) s := by
  intro e s' _ ok
  have finished := h.destroyed destroyed
  have returned := h.returned (by simp [destroyed])
  cases step_move ok with
  | @download e d other moved =>
      cases e with
      | worker i choice =>
          cases there : s.download.workers[i]? with
          | none => simp [Download.step, there] at moved
          | some w => exact worker_stuck there (.inl (finished w (List.mem_of_getElem? there))) moved
      | wake i =>
          cases Download.step_move moved with
          | wake there parked => simp [finished _ (List.mem_of_getElem? there)] at parked
      | close i => exact absurd rfl (other i)
      | controller choice => exact (Download.step_returned returned moved).2 choice rfl
  | begin running _ => simp [destroyed] at running
  | close closing _ => simp [destroyed] at closing
  | closed closing _ => simp [destroyed] at closing
  | join joining _ _ => simp [destroyed] at joining
  | joined joining _ => simp [destroyed] at joining

theorem InTurn.quiet_iff {n : Nat} (h : s.InTurn n) (joins : s.destructor.Joins)
    (equipped : ∀ (i : Nat) (w : DownloadWorker), s.download.workers[i]? = some w →
      Download.Equipped s.download.complete.resource w) :
    Quiet DownloadService.step Prompt s ↔ s.destructor = .destroyed ∨
      (∃ (i : Nat) (w : DownloadWorker), s.destructor = .joining i ∧
        s.download.workers[i]? = some w ∧ w.pc ≠ .finished) ∧
      ∀ w ∈ s.download.workers, w.pc = .finished ∨ w.pc = .parked ∨ Misreads w := by
  constructor
  · intro quiet
    cases pc : s.destructor with
    | running => simp [pc, DestructorPc.Joins] at joins
    | closing i => simp [pc, DestructorPc.Joins] at joins
    | destroyed => exact .inl rfl
    | joining i =>
        right
        constructor
        · cases there : s.download.workers[i]? with
          | none =>
              refine absurd ?_ (quiet .destructor { s with destructor := .destroyed } trivial)
              simp [DownloadService.step, destroy, pc, there]
          | some w =>
              refine ⟨i, w, rfl, there, fun finished => ?_⟩
              refine quiet .destructor { s with destructor := .joining (i + 1) } trivial ?_
              simp [DownloadService.step, destroy, pc, there, finished]
        · intro w member
          obtain ⟨j, there⟩ := List.mem_iff_getElem?.mp member
          rcases exists_worker_step there (equipped j w there) with
            finished | parked | misreads | ⟨choice, d', moved⟩
          · exact .inl finished
          · exact .inr (.inl parked)
          · exact .inr (.inr misreads)
          · refine absurd ?_ (quiet (.download (.worker j choice)) { s with download := d' } trivial)
            exact bind_eq_ok.mpr ⟨d', moved, rfl⟩
  · rintro (destroyed | ⟨⟨i, w, joining, there, unfinished⟩, stuck⟩)
    · exact fun e s' _ => h.quiet_of_destroyed destroyed e s' trivial
    · intro e s' prompt ok
      have returned := h.returned (by simp [joining])
      cases step_move ok with
      | @download e d other moved =>
          cases e with
          | worker j choice =>
              cases there' : s.download.workers[j]? with
              | none => simp [Download.step, there'] at moved
              | some v => exact worker_stuck there' (stuck v (List.mem_of_getElem? there')) moved
          | wake j => exact prompt
          | close j => exact absurd rfl (other j)
          | controller choice => exact (Download.step_returned returned moved).2 choice rfl
      | begin running _ => simp [joining] at running
      | close closing _ => simp [joining] at closing
      | closed closing _ => simp [joining] at closing
      | join joining' there' finished =>
          obtain rfl := DestructorPc.joining.inj (joining.symm.trans joining')
          obtain rfl := Option.some.inj (there.symm.trans there')
          exact unfinished finished
      | joined joining' missing =>
          obtain rfl := DestructorPc.joining.inj (joining.symm.trans joining')
          simp [there] at missing

/-! ## After completion -/

/-- The download is complete, and no worker has a segment, is between its test of that and its wait, or
waits. -/
structure Settled (s : DownloadService) : Prop where
  completed : s.download.complete.isCompleted = true
  idle : ∀ w ∈ s.download.workers, w.phase = .idle ∧ w.pc ≠ .parked ∧ ∀ notified, w.pc ≠ .scan notified

instance (s : DownloadService) : Decidable s.Settled :=
  decidable_of_iff (s.download.complete.isCompleted = true ∧ ∀ w ∈ s.download.workers,
      w.phase = .idle ∧ w.pc ≠ .parked ∧ ∀ notified, w.pc ≠ .scan notified)
    ⟨fun ⟨completed, idle⟩ => ⟨completed, idle⟩, fun h => ⟨h.completed, h.idle⟩⟩

theorem advance_settled {w w' : DownloadWorker} {delays : HostDelays} {choice : Choice}
    (idle : w.phase = .idle) (ok : w.advance true delays choice = .ok w') :
    w'.phase = .idle ∧ w'.pc ≠ .parked ∧ ∀ notified, w'.pc ≠ .scan notified := by
  cases pc : w.pc with
  | returned s =>
      have last : s.id = noSegmentId := by simpa [DownloadWorker.phase, pc] using idle
      simp only [DownloadWorker.advance, pc, last, if_true, Except.ok.injEq] at ok
      subst ok
      simp [DownloadWorker.phase]
  | completionTest notified =>
      simp only [DownloadWorker.advance, pc, if_true, Except.ok.injEq] at ok
      subst ok
      simp [DownloadWorker.phase, Segment.noSegmentLeft]
  | connecting =>
      simp only [DownloadWorker.advance, pc, Except.ok.injEq] at ok
      subst ok
      cases io : choice.io <;> simp [DownloadWorker.phase]
  | loopTest =>
      simp only [DownloadWorker.advance, pc, Except.ok.injEq] at ok
      subst ok
      cases closed : w.closed <;> simp [DownloadWorker.phase]
  | banTest =>
      simp only [DownloadWorker.advance, pc, Except.ok.injEq] at ok
      subst ok
      cases banned : delays.isRetarded choice.now <;> simp [DownloadWorker.phase]
  | banWait | terminating =>
      simp only [DownloadWorker.advance, pc, Except.ok.injEq] at ok
      subst ok
      simp [DownloadWorker.phase]
  | requesting s | receiving s | clearing s | failing s => simp [DownloadWorker.phase, pc] at idle
  | scan notified | parked | completing s | releasing s | finished =>
      simp [DownloadWorker.advance, pc] at ok

theorem Settled.step (h : s.Settled) {n : Nat} (inTurn : s.InTurn n) (joins : s.destructor.Joins)
    {e : Event} (ok : s.step e = .ok s') : s'.Settled := by
  cases step_move ok with
  | @download e d other moved =>
      have running : s.destructor ≠ .running := by
        intro running
        simp [running, DestructorPc.Joins] at joins
      have silent := (Download.step_returned (inTurn.returned running) moved).2
      cases Download.step_move moved with
      | @advance i choice w w' there advanced =>
          rw [h.completed] at advanced
          have idle := advance_settled (h.idle w (List.mem_of_getElem? there)).1 advanced
          exact ⟨h.completed, Threads.forall_step h.idle idle⟩
      | take there pc _ => exact absurd pc ((h.idle _ (List.mem_of_getElem? there)).2.2 _)
      | park there pc _ => exact absurd pc ((h.idle _ (List.mem_of_getElem? there)).2.2 _)
      | complete there pc _ =>
          have idle := (h.idle _ (List.mem_of_getElem? there)).1
          simp [DownloadWorker.phase, pc] at idle
      | fail there pc _ =>
          have idle := (h.idle _ (List.mem_of_getElem? there)).1
          simp [DownloadWorker.phase, pc] at idle
      | wake there parked => exact absurd parked (h.idle _ (List.mem_of_getElem? there)).2.1
      | close there => exact absurd rfl (other _)
      | control _ => exact absurd rfl (silent _)
      | increase _ _ => exact absurd rfl (silent _)
      | release _ _ => exact absurd rfl (silent _)
      | mark _ _ => exact absurd rfl (silent _)
  | begin running _ => simp [running, DestructorPc.Joins] at joins
  | close closing _ => simp [closing, DestructorPc.Joins] at joins
  | closed closing _ => simp [closing, DestructorPc.Joins] at joins
  | join _ _ _ => exact ⟨h.completed, h.idle⟩
  | joined _ _ => exact ⟨h.completed, h.idle⟩

theorem Settled.not_stuck (h : s.Settled) {w : DownloadWorker} (member : w ∈ s.download.workers)
    (stuck : w.pc = .finished ∨ w.pc = .parked ∨ Misreads w) : w.pc = .finished := by
  obtain ⟨idle, awake, -⟩ := h.idle w member
  rcases stuck with finished | parked | ⟨segment, pc, -⟩
  · exact finished
  · exact absurd parked awake
  · simp [DownloadWorker.phase, pc] at idle

theorem Settled.run (h : s.Settled) {n : Nat} (inTurn : s.InTurn n) (joins : s.destructor.Joins)
    {events : List Event} (prompt : ∀ e ∈ events, Prompt e)
    (run : events.foldlM DownloadService.step s = .ok s') :
    s'.Settled ∧ s'.InTurn n ∧ s'.destructor.Joins := by
  induction events generalizing s with
  | nil =>
      obtain rfl := Except.ok.inj run
      exact ⟨h, inTurn, joins⟩
  | cons e rest ih =>
      obtain ⟨next, first, later⟩ := bind_eq_ok.mp ((List.foldlM_cons ..).symm.trans run)
      obtain ⟨⟨inTurn', joins'⟩, -⟩ :=
        decreases n s e next ⟨inTurn, joins⟩ (prompt e (by simp)) first
      exact ih (h.step inTurn joins first) inTurn' joins'
        (fun e member => prompt e (List.mem_cons_of_mem _ member)) later

/-! ## Runs -/

variable {resource : Resource} {possessors : List HostPtr} {delays : HostPtr → HostDelays}

theorem reach_inTurn (h : Reach step Anything (start resource possessors delays) s) :
    s.InTurn possessors.length :=
  h.invariant (.start resource possessors delays) fun _ _ _ inTurn _ ok => inTurn.step ok

theorem reach_download (h : Reach step Anything (start resource possessors delays) s) :
    Reach Download.step Anything (.start resource possessors delays) s.download := by
  induction h with
  | refl => exact .refl
  | tail _ _ ok ih =>
      cases step_move ok with
      | download _ moved => exact ih.tail trivial moved
      | close _ moved => exact ih.tail trivial moved
      | _ => exact ih

theorem reach_equipped (h : Reach step Anything (start resource possessors delays) s) (i : Nat)
    (w : DownloadWorker) (there : s.download.workers[i]? = some w) :
    Download.Equipped s.download.complete.resource w := by
  obtain ⟨same, equipped⟩ := Download.reach_equipped (reach_download h)
  exact same ▸ equipped i w there

/-- The destructor does not wait for the rest of the download: what is left of it is at most so many
steps of all threads, however the operations of the workers end. -/
theorem reach_shutdown_bounded (h : Reach step Anything (start resource possessors delays) s)
    (joins : s.destructor.Joins) {events : List Event} (prompt : ∀ e ∈ events, Prompt e)
    (run : events.foldlM step s = .ok s') :
    events.length ≤ 10 * possessors.length ^ 2 + 12 * possessors.length + 1 ∧
      ∃ (rest : List Event) (last : DownloadService), (∀ e ∈ rest, Prompt e) ∧
        rest.foldlM step s' = .ok last ∧ Quiet step Prompt last := by
  have inTurn := reach_inTurn h
  obtain ⟨bound, ended⟩ := (decreases possessors.length).length_le ⟨inTurn, joins⟩ prompt run
  obtain ⟨rest, last, all, later, -, quiet⟩ := (decreases possessors.length).exists_quiet ended
  have most := inTurn.stepsLeft_le
  exact ⟨by omega, rest, last, all, later, quiet⟩

/-- It comes to a stop before its end exactly at a worker that waits in `get_segment`, or whose
exception is a fault. -/
theorem reach_quiet_iff (h : Reach step Anything (start resource possessors delays) s)
    (joins : s.destructor.Joins) :
    Quiet step Prompt s ↔ s.destructor = .destroyed ∨
      (∃ (i : Nat) (w : DownloadWorker), s.destructor = .joining i ∧
        s.download.workers[i]? = some w ∧ w.pc ≠ .finished) ∧
      ∀ w ∈ s.download.workers, w.pc = .finished ∨ w.pc = .parked ∨ Misreads w :=
  (reach_inTurn h).quiet_iff joins (reach_equipped h)

/-- No thread of the service outlives it. -/
theorem reach_destroyed (h : Reach step Anything (start resource possessors delays) s)
    (destroyed : s.destructor = .destroyed) :
    (∀ w ∈ s.download.workers, w.pc = .finished) ∧ Quiet step (fun _ => True) s :=
  ⟨(reach_inTurn h).destroyed destroyed, (reach_inTurn h).quiet_of_destroyed destroyed⟩

/-- A complete download that no worker still works on or waits for is left in every case. -/
theorem reach_settled_destroyed (h : Reach step Anything (start resource possessors delays) s)
    (joins : s.destructor.Joins) (settled : s.Settled) {events : List Event}
    (prompt : ∀ e ∈ events, Prompt e) (run : events.foldlM step s = .ok s')
    (quiet : Quiet step Prompt s') : s'.destructor = .destroyed := by
  obtain ⟨settled', -, joins'⟩ := settled.run (reach_inTurn h) joins prompt run
  have reached' : Reach step Anything (start resource possessors delays) s' :=
    foldlM_invariant (Reach step Anything (start resource possessors delays)) run h
      fun _ _ _ _ earlier ok => earlier.tail trivial ok
  rcases ((reach_inTurn reached').quiet_iff joins' (reach_equipped reached')).mp quiet with
    destroyed | ⟨⟨i, w, -, there, unfinished⟩, stuck⟩
  · exact destroyed
  · have member := List.mem_of_getElem? there
    exact absurd (settled'.not_stuck member (stuck w member)) unfinished

/-! ## A service with two workers -/

def twoWorkers : DownloadService :=
  start { size := 1024, name := [97] } [0, 1] fun _ => { banTime := 0 }

def downloaded : List Event :=
  List.replicate 10 (.download (.worker 0 {})) ++ List.replicate 3 (.download (.worker 1 {})) ++
    List.replicate 2 (.download (.controller {})) ++ List.replicate 4 .destructor

/-- The second worker begins to wait when the first has already set the last segment. -/
def missed : List Event :=
  List.replicate 9 (.download (.worker 0 {})) ++ List.replicate 4 (.download (.worker 1 {})) ++
    [.download (.worker 0 {}), .download (.worker 1 {})] ++
    List.replicate 2 (.download (.controller {})) ++ List.replicate 4 .destructor ++
    [.download (.worker 0 {}), .destructor]

theorem exists_settled : ∃ s, Reach step Anything twoWorkers s ∧ s.destructor = .joining 0 ∧
    s.Settled := by
  obtain ⟨s, run, ended⟩ := exists_reach_of_exec step Anything twoWorkers downloaded
    (fun s => s.destructor = .joining 0 ∧ s.Settled) (by decide)
  exact ⟨s, run, of_decide_eq_true ended⟩

def ending : List Event :=
  [.download (.worker 0 {}), .download (.worker 1 {}), .destructor, .download (.worker 1 {})]

theorem two_workers_bounded : ∃ s s' : DownloadService, s.destructor = .joining 0 ∧
    s'.destructor = .joining 1 ∧ ending.foldlM step s = .ok s' ∧
    ending.length ≤ 10 * 2 ^ 2 + 12 * 2 + 1 ∧
    ∃ (rest : List Event) (last : DownloadService), (∀ e ∈ rest, Prompt e) ∧
      rest.foldlM step s' = .ok last ∧ Quiet step Prompt last := by
  obtain ⟨s, run, test⟩ := exists_reach_of_exec step Anything twoWorkers downloaded
    (fun s => s.destructor = .joining 0 ∧
      (ending.foldlM step s).toOption.any fun s' => s'.destructor = .joining 1) (by decide)
  obtain ⟨joining, ended⟩ := of_decide_eq_true test
  cases later : ending.foldlM step s with
  | error failure => simp [later, Except.toOption] at ended
  | ok s' =>
      have joining' : s'.destructor = .joining 1 := by simpa [later, Except.toOption] using ended
      have joins : s.destructor.Joins := by
        rw [joining]
        trivial
      obtain ⟨bound, continued⟩ :=
        reach_shutdown_bounded run joins (by simp [ending, Prompt]) later
      exact ⟨s, s', joining, joining', later, bound, continued⟩

/-- The thread of the download waits for ever. -/
theorem missed_quiet : ∃ s : DownloadService, s.destructor = .joining 1 ∧ Quiet step Prompt s := by
  obtain ⟨s, run, ended⟩ := exists_reach_of_exec step Anything twoWorkers missed
    (fun s => s.destructor = .joining 1 ∧ (s.download.workers[1]?.map (·.pc)) = some .parked ∧
      ∀ w ∈ s.download.workers, w.pc = .finished ∨ w.pc = .parked) (by decide)
  obtain ⟨joining, second, stuck⟩ := of_decide_eq_true ended
  obtain ⟨w, there, parked⟩ := Option.map_eq_some_iff.mp second
  refine ⟨s, joining, (reach_quiet_iff run (by rw [joining]; trivial)).mpr (.inr ⟨?_, ?_⟩)⟩
  · exact ⟨1, w, joining, there, by simp [parked]⟩
  · exact fun v member => (stuck v member).imp_right .inl

theorem two_workers_destroyed : ∃ s : DownloadService, s.destructor = .destroyed ∧
    (∀ w ∈ s.download.workers, w.pc = .finished) := by
  obtain ⟨s, run, ended⟩ := exists_reach_of_exec step Anything twoWorkers
    (downloaded ++ [.download (.worker 0 {}), .download (.worker 1 {}), .download (.worker 1 {})] ++
      List.replicate 3 .destructor) (fun s => s.destructor = .destroyed) (by decide)
  have destroyed := of_decide_eq_true ended
  exact ⟨s, destroyed, (reach_destroyed run destroyed).1⟩

theorem settled_left : ∃ s s' : DownloadService, s.Settled ∧ s'.destructor = .destroyed := by
  obtain ⟨s, run, joining, settled⟩ := exists_settled
  have joins : s.destructor.Joins := by
    rw [joining]
    trivial
  obtain ⟨events, s', prompt, later, -, quiet⟩ :=
    (decreases 2).exists_quiet ⟨reach_inTurn run, joins⟩
  exact ⟨s, s', settled, reach_settled_destroyed run joins settled prompt later quiet⟩

end DownloadService

end SimpleP2P
