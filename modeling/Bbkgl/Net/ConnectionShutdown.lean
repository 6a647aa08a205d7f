import Bbkgl.Net.ConnectionStream

/-!
# The graceful shutdown of a connection

`ShutdownInLoop` half-closes the socket when the channel is not subscribed for
writing. It does not look at the queue: a `SendInLoop` that is still queued there
is executed after the half-close. In runs where none is, everything that was sent
has been accepted by then, and nothing is written afterwards.
-/

set_option autoImplicit false

namespace Bbkgl
namespace Connection

open CS.Transition

variable {v v' : Connection} {a : Action} {log es : List ConnEvent} {who : Caller}

/-- No message is on its way to `SendInLoop`. -/
def NoSends (v : Connection) : Prop :=
  (∀ who message, .send who message ∉ v.tasks) ∧ ∀ who message, v.calls who ≠ some (.send message)

/-- The step performs `shutdown(SHUT_WR)`. -/
def HalfCloses (v : Connection) : Action → Prop
  | .runShutdown | .shutdownDirect => v.writing = false
  | .handleWrite wr => v.writing = true ∧ v.empties wr = true ∧ v.state = .disconnecting
  | _ => False

/-- At every half-close, all that was sent has been accepted, and no write follows. -/
def Clean (log : List ConnEvent) : Prop :=
  ∀ pre post, log = pre ++ .halfClosed :: post →
    accepted pre = executedBytes pre ∧ (∀ who, executedBy who pre = sentBy who pre) ∧
      ∀ bytes, .write bytes ∉ post

/-- A clean log stays clean, if nothing is written behind the half-close. -/
theorem Clean.append (h : Clean log) (hhalf : .halfClosed ∉ es)
    (hwrite : .halfClosed ∈ log → ∀ bytes, .write bytes ∉ es) : Clean (log ++ es) := by
  intro pre post heq
  rcases List.append_eq_append_iff.mp heq with ⟨mid, rfl, hes⟩ | ⟨mid, hlog, hpost⟩
  · exact absurd (hes ▸ List.mem_append_right mid List.mem_cons_self) hhalf
  · cases mid with
    | nil =>
      rw [List.nil_append] at hpost
      exact absurd (hpost ▸ List.mem_cons_self) hhalf
    | cons e mid =>
      obtain ⟨rfl, rfl⟩ := List.cons.inj hpost
      obtain ⟨hacc, hord, hnone⟩ := h pre mid hlog
      refine ⟨hacc, hord, fun bytes hmem => ?_⟩
      rcases List.mem_append.mp hmem with hmid | hmem
      · exact hnone bytes hmid
      · exact hwrite (hlog ▸ List.mem_append_right pre List.mem_cons_self) bytes hmem

/-- A half-close after everything has been written leaves a clean log. -/
theorem Clean.halfClosed (h : Clean log) (hacc : accepted log = executedBytes log)
    (hord : ∀ who, executedBy who log = sentBy who log) : Clean (log ++ [.halfClosed]) := by
  intro pre post heq
  rcases List.append_eq_append_iff.mp heq with ⟨mid, rfl, hes⟩ | ⟨mid, hlog, hpost⟩
  · cases mid with
    | nil =>
      obtain rfl : [] = post := (List.cons.inj hes).2
      rw [List.append_nil]
      exact ⟨hacc, hord, by simp⟩
    | cons e mid =>
      have hlen := congrArg List.length hes
      simp at hlen
  · cases mid with
    | nil =>
      rw [List.append_nil] at hlog
      subst hlog
      obtain rfl : post = [] := (List.cons.inj hpost).2
      exact ⟨hacc, hord, by simp⟩
    | cons e mid =>
      obtain ⟨rfl, rfl⟩ := List.cons.inj hpost
      obtain ⟨hacc', hord', hnone⟩ := h pre mid hlog
      exact ⟨hacc', hord', by simpa using hnone⟩

/-- The state is past `k_connected`, to which it does not return. -/
def Leaving (v : Connection) : Prop := v.state ≠ .connecting ∧ v.state ≠ .connected

/-- Before a close the history is clean, and after a half-close nothing more is to be sent. -/
structure HalfInv (v : Connection) : Prop where
  clean : v.log.count .closed = 0 → Clean v.log
  quiet : v.log.count .closed = 0 → .halfClosed ∈ v.log →
    NoSends v ∧ Leaving v ∧ v.writing = false
  shutdown : (.shutdown ∈ v.tasks ∨ ∃ who, v.calls who = some .shutdownSet) → Leaving v

theorem halfInv_init (owner : Caller) : HalfInv (init owner) := by
  constructor <;> simp [init, Clean]

/-- With nothing on its way and nothing in the backlog, all that was sent is accepted. -/
theorem Stream.all_accepted (h : Stream v) (hsends : NoSends v) (hclosed : v.log.count .closed = 0)
    (hwriting : v.writing = false) :
    accepted v.log = executedBytes v.log ∧ ∀ who, executedBy who v.log = sentBy who v.log := by
  refine ⟨?_, fun who => ?_⟩
  · have hbacklog : v.backlog = [] := by
      by_contra hne
      exact absurd ((h.conserved.2 hclosed).mp hne) (by simp [hwriting])
    rw [← h.conserved.1, hbacklog, List.append_nil]
  · have hqueued : queuedBy who v.tasks = [] := by
      apply List.filterMap_eq_nil_iff.mpr
      intro t ht
      cases t with
      | send w message => exact absurd ht (hsends.1 w message)
      | establish | destroy | shutdown => rfl
    have hflight : inFlight (v.calls who) = [] := by
      cases hcall : v.calls who with
      | none => rfl
      | some call =>
        cases call with
        | send message => exact absurd hcall (hsends.2 who message)
        | shutdownChecked | shutdownSet => rfl
    have horder := h.order who
    rwa [Ordered, hqueued, hflight, List.append_nil, List.append_nil] at horder

/-- `ShutdownInLoop`, when it half-closes only with nothing on its way. -/
theorem HalfInv.shutdownInLoop (h : HalfInv v) (hstream : Stream v) (hleaving : Leaving v)
    (hok : v.writing = false → NoSends v) : HalfInv v.shutdownInLoop := by
  rw [Connection.shutdownInLoop]
  split
  · exact h
  · next hwriting =>
    have hwriting : v.writing = false := by simpa using hwriting
    have hcount : (v.record .halfClosed).log.count .closed = v.log.count .closed := by
      simp [record]
    refine ⟨fun h0 => ?_, fun _ _ => ⟨hok hwriting, hleaving, hwriting⟩, h.shutdown⟩
    rw [hcount] at h0
    obtain ⟨hacc, hord⟩ := hstream.all_accepted (hok hwriting) h0 hwriting
    exact (h.clean h0).halfClosed hacc hord

/-- A step that does not half-close. After a half-close, it may neither write nor
send, nor subscribe for writing. -/
theorem HalfInv.congr (h : HalfInv v) (es : List ConnEvent) (hlog : v'.log = v.log ++ es)
    (hhalf : .halfClosed ∉ es)
    (hquiet : NoSends v → Leaving v → v.writing = false →
      (∀ bytes, .write bytes ∉ es) ∧ NoSends v' ∧ Leaving v' ∧ v'.writing = false)
    (hshutdown : (.shutdown ∈ v'.tasks ∨ ∃ who, v'.calls who = some .shutdownSet) → Leaving v') :
    HalfInv v' := by
  have hcount : v'.log.count .closed = 0 → v.log.count .closed = 0 := by
    rw [hlog, List.count_append]
    omega
  have hmem : .halfClosed ∈ v'.log → .halfClosed ∈ v.log := by
    rw [hlog, List.mem_append]
    exact fun hm => hm.resolve_right hhalf
  refine ⟨fun h0 => ?_, fun h0 hm => ?_, hshutdown⟩
  · rw [hlog]
    apply (h.clean (hcount h0)).append hhalf
    intro hm
    obtain ⟨hsends, hleaving, hwriting⟩ := h.quiet (hcount h0) hm
    exact (hquiet hsends hleaving hwriting).1
  · obtain ⟨hsends, hleaving, hwriting⟩ := h.quiet (hcount h0) (hmem hm)
    exact (hquiet hsends hleaving hwriting).2

/-- The half-close that a step performs finds nothing on its way. -/
def HalfClosesClean (v : Connection) (a : Action) : Prop := HalfCloses v a → NoSends v

/-- The step lemma of `HalfInv`. -/
theorem halfInv_step (hstream : Stream v) (h : HalfInv v)
    (hok : HalfClosesClean v a) (hstep : step v a = some v') : HalfInv v' := by
  obtain ⟨hg, rfl⟩ := guarded_eq_some_iff.mp hstep
  have hshut := h.shutdown
  -- after the half-close the state is not `k_connected`, so the calls that look for it do nothing
  have contra : ∀ {p : Prop}, v.state = .connected → Leaving v → p := fun hs hl => absurd hs hl.2
  cases a with
  | establish =>
    simp only [guard, Bool.and_eq_true, decide_eq_true_eq, List.head?_eq_some_iff] at hg
    obtain ⟨⟨ts, hts⟩, hstate⟩ := hg
    refine h.congr [.up] rfl (by simp) (fun _ hl => absurd hstate hl.1) fun hs => ?_
    refine absurd hstate (hshut (hs.imp_left fun hmem => ?_)).1
    exact List.mem_of_mem_tail hmem
  | close =>
    exact h.congr [.closed] rfl (by simp) (fun hs hl _ => ⟨by simp, hs, hl, rfl⟩) hshut
  | remove =>
    refine h.congr [.removed] rfl (by simp) (fun hs hl hw => ⟨by simp, ?_, hl, hw⟩) ?_
    · exact ⟨fun w m => by simpa [effect] using hs.1 w m, hs.2⟩
    · exact fun hs => hshut (hs.imp_left fun hmem => by simpa [effect] using hmem)
  | evict | die =>
    exact h.congr [] (List.append_nil _).symm (by simp) (fun hs hl hw => ⟨by simp, hs, hl, hw⟩)
      hshut
  | destroy =>
    have hleaving : Leaving (effect v .destroy) := ⟨by simp [effect], by simp [effect]⟩
    refine h.congr [.destroyed, .down] (by simp [effect, popTask, record]) (by simp)
      (fun hs _ _ => ⟨by simp, ⟨fun w m hmem => ?_, hs.2⟩, hleaving, rfl⟩) fun _ => hleaving
    exact hs.1 w m (List.mem_of_mem_tail hmem)
  | callSend who message =>
    simp only [guard, Bool.and_eq_true, decide_eq_true_eq] at hg
    apply h.congr [.sent who message] rfl (by simp) (fun _ hl => contra hg.1.1 hl)
    rintro (hmem | ⟨w, hw⟩)
    · exact hshut (Or.inl hmem)
    · by_cases hwho : w = who
      · subst hwho
        simp [effect, setCall] at hw
      · exact hshut (Or.inr ⟨w, by simpa [effect, setCall, record, hwho] using hw⟩)
  | pushSend who =>
    simp only [guard] at hg
    split at hg
    · next message hcall =>
      simp only [effect, hcall]
      refine h.congr [] (List.append_nil _).symm (by simp)
        (fun hs => absurd hcall (hs.2 who message)) ?_
      rintro (hmem | ⟨w, hw⟩)
      · exact hshut (Or.inl (by simpa using hmem))
      · by_cases hwho : w = who
        · subst hwho
          simp [setCall] at hw
        · exact hshut (Or.inr ⟨w, by simpa [setCall, hwho] using hw⟩)
    · simp at hg
  | runSend wr =>
    simp only [guard] at hg
    split at hg
    · next who message ts hts =>
      have hmem : Task.send who message ∈ v.tasks := hts ▸ List.mem_cons_self
      simp only [effect, hts]
      refine h.congr _ rfl ?_ (fun hs => absurd hmem (hs.1 who message)) fun hs => ?_
      · split <;> simp
      · refine hshut (hs.imp_left fun hmem => ?_)
        exact List.mem_of_mem_tail hmem
    · simp at hg
  | sendDirect who message wr =>
    simp only [guard, Bool.and_eq_true, decide_eq_true_eq] at hg
    refine h.congr _ (List.append_assoc _ _ _) ?_ (fun _ hl => contra hg.1 hl) hshut
    split <;> simp
  | callShutdown who =>
    simp only [guard, Bool.and_eq_true, decide_eq_true_eq] at hg
    refine h.congr [] (List.append_nil _).symm (by simp) (fun _ hl => contra hg.1.1 hl) ?_
    rintro (hmem | ⟨w, hw⟩)
    · exact hshut (Or.inl hmem)
    · by_cases hwho : w = who
      · subst hwho
        simp [effect, setCall] at hw
      · exact hshut (Or.inr ⟨w, by simpa [effect, setCall, hwho] using hw⟩)
  | setDisconnecting who =>
    have hleaving : Leaving (effect v (.setDisconnecting who)) :=
      ⟨by simp [effect], by simp [effect]⟩
    refine h.congr [] (List.append_nil _).symm (by simp)
      (fun hs _ hw => ⟨by simp, ⟨hs.1, fun w m => ?_⟩, hleaving, hw⟩) fun _ => hleaving
    by_cases hwho : w = who
    · subst hwho
      simp [effect, setCall]
    · simpa [effect, setCall, hwho] using hs.2 w m
  | pushShutdown who =>
    simp only [guard, decide_eq_true_eq] at hg
    have hleaving : Leaving v := hshut (Or.inr ⟨who, hg⟩)
    refine h.congr [] (List.append_nil _).symm (by simp)
      (fun hs _ hw => ⟨by simp, ⟨fun w m => ?_, fun w m => ?_⟩, hleaving, hw⟩) fun _ => hleaving
    · simpa [effect] using hs.1 w m
    · by_cases hwho : w = who
      · subst hwho
        simp [effect, setCall]
      · simpa [effect, setCall, hwho] using hs.2 w m
  | runShutdown =>
    simp only [guard, decide_eq_true_eq, List.head?_eq_some_iff] at hg
    obtain ⟨ts, hts⟩ := hg
    have hleaving : Leaving v := hshut (Or.inl (hts ▸ List.mem_cons_self))
    have hpop : NoSends v → NoSends v.popTask := fun hs =>
      ⟨fun w m hmem => hs.1 w m (List.mem_of_mem_tail hmem), hs.2⟩
    have hinv : HalfInv v.popTask := by
      refine h.congr [] (List.append_nil _).symm (by simp)
        (fun hs hl hw => ⟨by simp, hpop hs, hl, hw⟩) fun _ => hleaving
    exact hinv.shutdownInLoop (hstream.popTask hts fun _ => rfl) hleaving fun hw => hpop (hok hw)
  | shutdownDirect =>
    have hleaving : Leaving { v with state := .disconnecting } := ⟨by simp, by simp⟩
    have hinv : HalfInv { v with state := .disconnecting } :=
      h.congr [] (List.append_nil _).symm (by simp)
        (fun hs _ hw => ⟨by simp, hs, hleaving, hw⟩) fun _ => hleaving
    exact hinv.shutdownInLoop (hstream.setState _) hleaving hok
  | handleWrite wr =>
    simp only [effect, handleWrite]
    split
    · next hwriting =>
      have hno : v.writing ≠ false := by simp [hwriting]
      split
      · next hempties =>
        have hinv : HalfInv { v.written (wr.getD 0) with writing := false } :=
          h.congr _ rfl (by simp) (fun _ _ hw => absurd hw hno) hshut
        split
        · next hstate =>
          have hleaving : Leaving v := ⟨by simp [hstate], by simp [hstate]⟩
          exact hinv.shutdownInLoop (hstream.emptied hempties) hleaving
            fun _ => hok ⟨hwriting, hempties, hstate⟩
        · exact hinv
      · exact h.congr _ rfl (by simp) (fun _ _ hw => absurd hw hno) hshut
    · exact h

end Connection
end Bbkgl
