import SimpleP2P.Download.Model

namespace SimpleP2P.Download
open Library

variable {d d' next : Download}

inductive Move (d : Download) : Event → Download → Prop
  | advance {i : Nat} {choice : Choice} {w w' : DownloadWorker} : d.workers[i]? = some w →
      w.advance d.complete.isCompleted (d.hosts w.host) choice = .ok w' →
      Move d (.worker i choice) (d.update i w')
  | take {i : Nat} {choice : Choice} {w : DownloadWorker} {notified : Bool} {segment : Segment}
      {complete : CompleteResource} : d.workers[i]? = some w → w.pc = .scan notified →
      d.complete.takeSegment = some (segment, complete) →
      Move d (.worker i choice) ({ d with complete }.update i { w with pc := .returned segment })
  | park {i : Nat} {choice : Choice} {w : DownloadWorker} {notified : Bool} :
      d.workers[i]? = some w → w.pc = .scan notified → d.complete.takeSegment = none →
      Move d (.worker i choice) (d.update i { w with pc := .parked })
  | complete {i : Nat} {choice : Choice} {w : DownloadWorker} {segment : Segment} {next : Download} :
      d.workers[i]? = some w → w.pc = .completing segment → d.setSegment segment.id = .ok next →
      Move d (.worker i choice) (next.update i { w with pc := .loopTest })
  | fail {i : Nat} {choice : Choice} {w : DownloadWorker} {segment : Segment} {next : Download} :
      d.workers[i]? = some w → w.pc = .releasing segment →
      d.unsetBusy w.ownedSegmentId choice.notified = .ok next →
      Move d (.worker i choice) (next.update i { w with pc := .terminating })
  | wake {i : Nat} {w : DownloadWorker} : d.workers[i]? = some w → w.pc = .parked →
      Move d (.wake i) (d.update i { w with pc := .completionTest false })
  | close {i : Nat} {w : DownloadWorker} : d.workers[i]? = some w →
      Move d (.close i) (d.update i { w with closed := true })
  | control {choice : Choice} {pc : ControllerPc} : d.advance choice = .ok pc →
      Move d (.controller choice) { d with controller := pc }
  | increase {i : Nat} {choice : Choice} {w : DownloadWorker} : d.controller = .increasing i →
      d.workers[i]? = some w →
      Move d (.controller choice) { d with
        hosts := fun p =>
          if p = w.host then (d.hosts p).increaseTimeoutCounter choice.now else d.hosts p
        controller := .loading i }
  | release {i : Nat} {id : SegmentId} {choice : Choice} {next : Download} :
      d.controller = .releasing i id → d.unsetBusy id choice.notified = .ok next →
      Move d (.controller choice) { next with controller := .marking i }
  | mark {i : Nat} {choice : Choice} {w : DownloadWorker} : d.controller = .marking i →
      d.workers[i]? = some w →
      Move d (.controller choice)
        { d.update i { w with timeouted := true } with controller := .checking (i + 1) }

theorem workerStep_move {i : Nat} {choice : Choice} {w : DownloadWorker}
    (there : d.workers[i]? = some w) (h : d.workerStep i w choice = .ok d') :
    Move d (.worker i choice) d' := by
  unfold workerStep at h
  split at h
  · rename_i notified pc
    split at h
    · rename_i segment complete taken
      exact Except.ok.inj h ▸ .take there pc taken
    · rename_i missing
      exact Except.ok.inj h ▸ .park there pc missing
  · rename_i segment pc
    obtain ⟨next, set, ended⟩ := bind_eq_ok.mp h
    exact Except.ok.inj ended ▸ .complete there pc set
  · rename_i segment pc
    obtain ⟨next, unset, ended⟩ := bind_eq_ok.mp h
    exact Except.ok.inj ended ▸ .fail there pc unset
  · obtain ⟨w', moved, ended⟩ := bind_eq_ok.mp h
    exact Except.ok.inj ended ▸ .advance there moved

theorem controllerStep_move {choice : Choice} (h : d.controllerStep choice = .ok d') :
    Move d (.controller choice) d' := by
  unfold controllerStep at h
  split at h
  · rename_i i pc
    split at h
    · rename_i w there
      exact Except.ok.inj h ▸ .increase pc there
    · contradiction
  · rename_i i id pc
    obtain ⟨next, unset, ended⟩ := bind_eq_ok.mp h
    exact Except.ok.inj ended ▸ .release pc unset
  · rename_i i pc
    split at h
    · rename_i w there
      exact Except.ok.inj h ▸ .mark pc there
    · contradiction
  · obtain ⟨pc, moved, ended⟩ := bind_eq_ok.mp h
    exact Except.ok.inj ended ▸ .control moved

theorem step_move {e : Event} (h : d.step e = .ok d') : Move d e d' := by
  cases e with
  | worker i choice =>
      cases there : d.workers[i]? with
      | none => simp [step, there] at h
      | some w => exact workerStep_move there (by simpa [step, there] using h)
  | wake i =>
      cases there : d.workers[i]? with
      | none => simp [step, there] at h
      | some w =>
          simp only [step, there] at h
          split at h
          · rename_i parked
            exact Except.ok.inj h ▸ .wake there parked
          · contradiction
  | close i =>
      cases there : d.workers[i]? with
      | none => simp [step, there] at h
      | some w =>
          simp only [step, there] at h
          exact Except.ok.inj h ▸ .close there
  | controller choice => exact controllerStep_move h

/-! ## Updates of the complete resource -/

theorem setSegment_ok {id : SegmentId} (h : d.setSegment id = .ok d') :
    ∃ complete, d.complete.setSegment id = .ok complete ∧
      d' = if complete.isCompleted then { d with complete }.notifyAll else { d with complete } := by
  obtain ⟨complete, set, ended⟩ := bind_eq_ok.mp h
  exact ⟨complete, mapError_ok.mp set, (Except.ok.inj ended).symm⟩

theorem notifyOne_ok {chosen : Nat} (h : d.notifyOne chosen = .ok d') :
    (d' = d ∧ ∀ w ∈ d.workers, w.pc ≠ .parked) ∨
      ∃ w, d.workers[chosen]? = some w ∧ w.pc = .parked ∧
        d' = d.update chosen { w with pc := .completionTest true } := by
  unfold notifyOne at h
  split at h
  · cases there : d.workers[chosen]? with
    | none => simp [there] at h
    | some w =>
        simp only [there] at h
        split at h
        · rename_i parked
          exact .inr ⟨w, rfl, parked, (Except.ok.inj h).symm⟩
        · contradiction
  · rename_i nobody
    exact .inl ⟨(Except.ok.inj h).symm, by simpa using nobody⟩

theorem unsetBusy_ok {id : SegmentId} {chosen : Nat} (h : d.unsetBusy id chosen = .ok d') :
    ∃ complete, d.complete.unsetBusy id = .ok complete ∧
      notifyOne { d with complete } chosen = .ok d' := by
  obtain ⟨complete, unset, notified⟩ := bind_eq_ok.mp h
  exact ⟨complete, mapError_ok.mp unset, notified⟩

@[simp] theorem update_complete (d : Download) (i : Nat) (w : DownloadWorker) :
    (d.update i w).complete = d.complete := rfl

@[simp] theorem update_controller (d : Download) (i : Nat) (w : DownloadWorker) :
    (d.update i w).controller = d.controller := rfl

@[simp] theorem update_workers (d : Download) (i : Nat) (w : DownloadWorker) :
    (d.update i w).workers = d.workers.set i w := rfl

theorem setSegment_controller {id : SegmentId} (h : d.setSegment id = .ok d') :
    d'.controller = d.controller := by
  obtain ⟨complete, -, rfl⟩ := setSegment_ok h
  split <;> rfl

theorem setSegment_complete {id : SegmentId} (h : d.setSegment id = .ok d') :
    d.complete.setSegment id = .ok d'.complete := by
  obtain ⟨complete, set, rfl⟩ := setSegment_ok h
  split <;> exact set

theorem unsetBusy_controller {id : SegmentId} {chosen : Nat} (h : d.unsetBusy id chosen = .ok d') :
    d'.controller = d.controller := by
  obtain ⟨complete, -, notified⟩ := unsetBusy_ok h
  rcases notifyOne_ok notified with ⟨rfl, -⟩ | ⟨w, -, -, rfl⟩ <;> rfl

theorem unsetBusy_complete {id : SegmentId} {chosen : Nat} (h : d.unsetBusy id chosen = .ok d') :
    d.complete.unsetBusy id = .ok d'.complete := by
  obtain ⟨complete, unset, notified⟩ := unsetBusy_ok h
  rcases notifyOne_ok notified with ⟨rfl, -⟩ | ⟨w, -, -, rfl⟩ <;> exact unset

theorem notifyAll_getElem? {i : Nat} {w : DownloadWorker} (there : d.workers[i]? = some w)
    (awake : w.pc ≠ .parked) : d.notifyAll.workers[i]? = some w := by
  simp [notifyAll, there, awake]

theorem setSegment_getElem? {id : SegmentId} (h : d.setSegment id = .ok next) {i : Nat}
    {w : DownloadWorker} (there : d.workers[i]? = some w) (awake : w.pc ≠ .parked) :
    next.workers[i]? = some w := by
  obtain ⟨complete, -, rfl⟩ := setSegment_ok h
  split
  · exact notifyAll_getElem? (by exact there) awake
  · exact there

theorem unsetBusy_getElem? {id : SegmentId} {chosen : Nat} (h : d.unsetBusy id chosen = .ok next)
    {i : Nat} {w : DownloadWorker} (there : d.workers[i]? = some w) (awake : w.pc ≠ .parked) :
    next.workers[i]? = some w := by
  obtain ⟨complete, -, notified⟩ := unsetBusy_ok h
  rcases notifyOne_ok notified with ⟨rfl, -⟩ | ⟨v, chosenThere, parked, rfl⟩
  · exact there
  · have other : chosen ≠ i := by
      rintro rfl
      obtain rfl := Option.some.inj (there.symm.trans chosenThere)
      exact awake parked
    rwa [update_workers, List.getElem?_set_ne other]

end SimpleP2P.Download
