import SimpleP2P.Download.Steps
import SimpleP2P.Library.Threads

namespace SimpleP2P
open Library

inductive Phase
  | idle
  | handed (segment : Segment)
  | requested (segment : Segment)
  | received (segment : Segment)
  | failed (segment : Segment)
  deriving DecidableEq, Repr

namespace Phase

def segment? : Phase → Option Segment
  | .idle => none
  | .handed s | .requested s | .received s | .failed s => some s

def outstanding? : Phase → Option Segment
  | .requested s | .failed s => some s
  | _ => none

def stored? : Phase → Option Segment
  | .requested s | .received s | .failed s => some s
  | _ => none

theorem segment_of_stored {p : Phase} {s : Segment} (h : p.stored? = some s) :
    p.segment? = some s := by
  cases p <;> simp_all [stored?, segment?]

theorem stored_of_outstanding {p : Phase} {s : Segment} (h : p.outstanding? = some s) :
    p.stored? = some s := by
  cases p <;> simp_all [stored?, outstanding?]

end Phase

namespace DownloadWorker

def phase (w : DownloadWorker) : Phase :=
  match w.pc with
  | .returned s => if s.id = noSegmentId then .idle else .handed s
  | .requesting s | .receiving s => .requested s
  | .clearing s | .completing s => .received s
  | .failing s | .releasing s => .failed s
  | _ => .idle

def ends (w : DownloadWorker) (choice : Choice) : Bool :=
  match w.pc with
  | .requesting _ => !choice.io
  | .receiving _ => true
  | _ => false

theorem advance_phase {w w' : DownloadWorker} {completed : Bool} {delays : HostDelays}
    {choice : Choice} (h : w.advance completed delays choice = .ok w') :
    (w'.phase = w.phase ∧ w'.ownedSegmentId = w.ownedSegmentId ∧ w.ends choice = false) ∨
      ∃ s, (w.phase = .handed s ∧ w'.phase = .requested s ∧ w'.ownedSegmentId = s.id) ∨
        (w.phase = .requested s ∧ w.ends choice = true ∧ w'.ownedSegmentId = w.ownedSegmentId ∧
          (choice.io = true ∧ w'.phase = .received s ∨ choice.io = false ∧ w'.phase = .failed s)) := by
  cases pc : w.pc with
  | completionTest notified =>
      simp only [advance, pc, Except.ok.injEq] at h
      subst h
      cases completed <;> simp [phase, ends, pc, Segment.noSegmentLeft]
  | returned s =>
      simp only [advance, pc] at h
      by_cases last : s.id = noSegmentId
      · rw [if_pos last] at h
        obtain rfl := Except.ok.inj h
        simp [phase, ends, pc, last]
      · rw [if_neg last] at h
        obtain rfl := Except.ok.inj h
        simp [phase, ends, pc, last]
  | failing s =>
      simp only [advance, pc] at h
      split at h
      · obtain rfl := Except.ok.inj h
        simp [phase, ends, pc]
      · contradiction
  | loopTest =>
      simp only [advance, pc, Except.ok.injEq] at h
      subst h
      cases closed : w.closed <;> simp [phase, ends, pc]
  | banTest =>
      simp only [advance, pc, Except.ok.injEq] at h
      subst h
      cases banned : delays.isRetarded choice.now <;> simp [phase, ends, pc]
  | connecting | requesting s | receiving s =>
      simp only [advance, pc, Except.ok.injEq] at h
      subst h
      cases io : choice.io <;> simp [phase, ends, pc, io]
  | banWait | clearing s | terminating =>
      simp only [advance, pc, Except.ok.injEq] at h
      subst h
      simp [phase, ends, pc]
  | scan notified | parked | completing s | releasing s | finished => simp [advance, pc] at h

def receiving? (w : DownloadWorker) : Option Segment :=
  match w.pc with
  | .receiving segment => some segment
  | _ => none

theorem receiving?_eq_some {w : DownloadWorker} {segment : Segment} :
    w.receiving? = some segment ↔ w.pc = .receiving segment := by
  cases pc : w.pc <;> simp [receiving?, pc]

end DownloadWorker

namespace Download

variable {d d' : Download} {e : Event} {i : Nat} {w w' : DownloadWorker}

inductive Becomes (d : Download) (e : Event) (i : Nat) (w w' : DownloadWorker) : Prop
  | same : w'.pc = w.pc → w'.ownedSegmentId = w.ownedSegmentId →
      (∀ choice, e ≠ .worker i choice) → Becomes d e i w w'
  | idle : w.receiving? = none → w'.phase = .idle → w'.receiving? = none → Becomes d e i w w'
  | took {segment : Segment} {complete : CompleteResource} : w.receiving? = none →
      d.complete.takeSegment = some (segment, complete) → w'.pc = .returned segment →
      Becomes d e i w w'
  | advanced {choice : Choice} : e = .worker i choice →
      w.advance d.complete.isCompleted (d.hosts w.host) choice = .ok w' → Becomes d e i w w'

def Notified (w w' : DownloadWorker) : Prop :=
  w' = w ∨ w.pc = .parked ∧ w' = { w with pc := .completionTest true }

theorem setSegment_worker {id : SegmentId} (ok : d.setSegment id = .ok d')
    (there : d'.workers[i]? = some w') : ∃ w, d.workers[i]? = some w ∧ Notified w w' := by
  obtain ⟨complete, -, rfl⟩ := setSegment_ok ok
  split at there
  · simp only [notifyAll, List.getElem?_map, Option.map_eq_some_iff] at there
    obtain ⟨w, old, new⟩ := there
    refine ⟨w, old, ?_⟩
    split at new
    · rename_i parked
      exact .inr ⟨parked, new.symm⟩
    · exact .inl new.symm
  · exact ⟨w', there, .inl rfl⟩

theorem unsetBusy_worker {id : SegmentId} {chosen : Nat} (ok : d.unsetBusy id chosen = .ok d')
    (there : d'.workers[i]? = some w') : ∃ w, d.workers[i]? = some w ∧ Notified w w' := by
  obtain ⟨complete, -, notified⟩ := unsetBusy_ok ok
  rcases notifyOne_ok notified with ⟨rfl, -⟩ | ⟨w, chosenThere, parked, rfl⟩
  · exact ⟨w', there, .inl rfl⟩
  · rcases Threads.getElem?_step there with ⟨rfl, rfl⟩ | ⟨other, old⟩
    · exact ⟨w, chosenThere, .inr ⟨parked, rfl⟩⟩
    · exact ⟨w', old, .inl rfl⟩

theorem Notified.becomes (h : Notified w w') (other : ∀ choice, e ≠ .worker i choice) :
    Becomes d e i w w' := by
  rcases h with rfl | ⟨parked, rfl⟩
  · exact .same rfl rfl other
  · exact .idle (by rw [DownloadWorker.receiving?, parked]) rfl rfl

theorem worker_ne {j : Nat} {choice : Choice} (other : i ≠ j) (choice' : Choice) :
    Event.worker j choice ≠ .worker i choice' := by
  rintro ⟨⟩
  exact other rfl

theorem step_becomes (ok : d.step e = .ok d') (there : d'.workers[i]? = some w') :
    ∃ w, d.workers[i]? = some w ∧ Becomes d e i w w' := by
  cases step_move ok with
  | @advance j choice v v' acting moved =>
      rcases Threads.getElem?_step there with ⟨rfl, rfl⟩ | ⟨other, old⟩
      · exact ⟨v, acting, .advanced rfl moved⟩
      · exact ⟨w', old, .same rfl rfl (worker_ne other)⟩
  | @take j choice v notified segment complete acting pc taken =>
      rcases Threads.getElem?_step there with ⟨rfl, rfl⟩ | ⟨other, old⟩
      · exact ⟨v, acting, .took (by rw [DownloadWorker.receiving?, pc]) taken rfl⟩
      · exact ⟨w', old, .same rfl rfl (worker_ne other)⟩
  | @park j choice v notified acting pc missing =>
      rcases Threads.getElem?_step there with ⟨rfl, rfl⟩ | ⟨other, old⟩
      · exact ⟨v, acting, .idle (by rw [DownloadWorker.receiving?, pc]) rfl rfl⟩
      · exact ⟨w', old, .same rfl rfl (worker_ne other)⟩
  | @complete j choice v segment next acting pc set =>
      rcases Threads.getElem?_step there with ⟨rfl, rfl⟩ | ⟨other, old⟩
      · exact ⟨v, acting, .idle (by rw [DownloadWorker.receiving?, pc]) rfl rfl⟩
      · obtain ⟨w, here, notified⟩ := setSegment_worker set old
        exact ⟨w, here, notified.becomes (worker_ne other)⟩
  | @fail j choice v segment next acting pc unset =>
      rcases Threads.getElem?_step there with ⟨rfl, rfl⟩ | ⟨other, old⟩
      · exact ⟨v, acting, .idle (by rw [DownloadWorker.receiving?, pc]) rfl rfl⟩
      · obtain ⟨w, here, notified⟩ := unsetBusy_worker unset old
        exact ⟨w, here, notified.becomes (worker_ne other)⟩
  | @wake j v acting parked =>
      rcases Threads.getElem?_step there with ⟨rfl, rfl⟩ | ⟨other, old⟩
      · exact ⟨v, acting, .idle (by rw [DownloadWorker.receiving?, parked]) rfl rfl⟩
      · exact ⟨w', old, .same rfl rfl (by simp)⟩
  | @close j v acting =>
      rcases Threads.getElem?_step there with ⟨rfl, rfl⟩ | ⟨other, old⟩
      · exact ⟨v, acting, .same rfl rfl (by simp)⟩
      · exact ⟨w', old, .same rfl rfl (by simp)⟩
  | control moved => exact ⟨w', there, .same rfl rfl (by simp)⟩
  | increase pc acting => exact ⟨w', there, .same rfl rfl (by simp)⟩
  | release pc unset =>
      obtain ⟨w, here, notified⟩ := unsetBusy_worker unset there
      exact ⟨w, here, notified.becomes (by simp)⟩
  | @mark j choice v pc acting =>
      rcases Threads.getElem?_step there with ⟨rfl, rfl⟩ | ⟨other, old⟩
      · exact ⟨v, acting, .same rfl rfl (by simp)⟩
      · exact ⟨w', old, .same rfl rfl (by simp)⟩

theorem step_resource (ok : d.step e = .ok d') : d'.complete.resource = d.complete.resource := by
  cases step_move ok with
  | take acting pc taken =>
      obtain ⟨id, -, -, -, -, rfl⟩ := CompleteResource.takeSegment_some taken
      rfl
  | complete acting pc set =>
      obtain ⟨inside, same⟩ := CompleteResource.setSegment_ok.mp (setSegment_complete set)
      rw [update_complete, same]
  | fail acting pc unset =>
      obtain ⟨inside, same⟩ := CompleteResource.unsetBusy_ok.mp (unsetBusy_complete unset)
      rw [update_complete, same]
  | release pc unset =>
      obtain ⟨inside, same⟩ := CompleteResource.unsetBusy_ok.mp (unsetBusy_complete unset)
      simp only [same]
  | _ => rfl

/-! ## The segments of the workers -/

def Placed (r : Resource) (segment : Segment) : Prop :=
  segment.id < r.calcSegmentsCount ∧ segment.data = some (segment.id.toNat * segmentSize)

structure Equipped (r : Resource) (w : DownloadWorker) : Prop where
  placed : ∀ segment, w.phase.segment? = some segment → Placed r segment
  owned : ∀ segment, w.phase.stored? = some segment → w.ownedSegmentId = segment.id

variable {r : Resource}

theorem Equipped.idle (h : w.phase = .idle) : Equipped r w := by
  constructor <;> simp [h, Phase.segment?, Phase.stored?]

theorem Equipped.becomes (h : Equipped r w) (resource : d.complete.resource = r)
    (became : d.Becomes e i w w') : Equipped r w' := by
  cases became with
  | same pc owned _ =>
      have phase : w'.phase = w.phase := by simp only [DownloadWorker.phase, pc]
      exact ⟨phase ▸ h.placed, phase ▸ owned ▸ h.owned⟩
  | idle _ phase _ => exact .idle phase
  | @took taken complete _ took pc =>
      by_cases last : taken.id = noSegmentId
      · exact .idle (by simp [DownloadWorker.phase, pc, last])
      · have phase : w'.phase = .handed taken := by simp [DownloadWorker.phase, pc, last]
        refine ⟨fun segment mine => ?_, by simp [phase, Phase.stored?]⟩
        obtain rfl : taken = segment := by simpa [phase, Phase.segment?] using mine
        exact resource ▸ CompleteResource.takeSegment_address took
  | advanced _ moved =>
      rcases DownloadWorker.advance_phase moved with ⟨phase, owned, -⟩ |
        ⟨t, ⟨before, after, owned⟩ | ⟨before, -, owned, ⟨-, after⟩ | ⟨-, after⟩⟩⟩
      · exact ⟨phase ▸ h.placed, phase ▸ owned ▸ h.owned⟩
      · have placed := h.placed t (by simp [before, Phase.segment?])
        constructor <;> simp [after, Phase.segment?, Phase.stored?, placed, owned]
      all_goals
        have placed := h.placed t (by simp [before, Phase.segment?])
        have mine := h.owned t (by simp [before, Phase.stored?])
        constructor <;> simp [after, Phase.segment?, Phase.stored?, placed, owned, mine]

theorem reach_equipped {possessors : List HostPtr} {delays : HostPtr → HostDelays}
    (h : Reach step Anything (start r possessors delays) d) :
    d.complete.resource = r ∧ ∀ (i : Nat) (w : DownloadWorker), d.workers[i]? = some w → Equipped r w := by
  induction h with
  | refl =>
      refine ⟨rfl, fun i w there => ?_⟩
      obtain ⟨host, -, rfl⟩ := List.mem_map.mp (List.mem_of_getElem? there)
      exact .idle rfl
  | tail _ _ ok ih =>
      obtain ⟨resource, equipped⟩ := ih
      refine ⟨(step_resource ok).trans resource, fun i w' there => ?_⟩
      obtain ⟨w, old, became⟩ := step_becomes ok there
      exact (equipped i w old).becomes resource became

end Download

end SimpleP2P
