import Bbkgl.Net.EpollerUnwatched
import Bbkgl.Net.TcpServerFrames
import Bbkgl.Net.TcpServerHandling
import Bbkgl.Net.TcpServerPhases
import Bbkgl.Net.TcpServerWatching

/-!
# How a channel loses its subscription

A channel that is subscribed for reading stays so but for `HandleClose` and `ConnDestroyed`.
Where nobody calls `Close`, `HandleClose` is made by a callback of `HandleEvent` that ends
the connection, and takes its channel out of the epoll instance.
-/

set_option autoImplicit false

namespace Bbkgl

/-- The callbacks of `HandleEvent` that can go on to `HandleClose`. -/
def Channel.Callback.ends : Channel.Callback → Bool
  | .close | .read => true
  | .error | .write => false

namespace TcpServer

open CS CS.Fallible CS.Transition TcpConnection Connection Epoller

variable {cfg : Config} {s m t : State} {i : LoopId} {c : ConnId} {a : Action}

/-! ### Unsubscribed -/

/-- Only `HandleClose` closes a connection. -/
theorem closes_of_mem (hmem : .close ∈ labels cfg s c a) : closes s a = some c := by
  cases labelOf_of_mem hmem with
  | close hcloses => exact hcloses

/-- Only `HandleClose` and `ConnDestroyed` end the interest in reading. -/
theorem reading_run {v v' : Connection} {bs : List Connection.Action} (hreading : v.reading = true)
    (hclose : .close ∉ bs) (hdestroy : .destroy ∉ bs) (hrun : run Connection.step v bs = some v') :
    v'.reading = true := by
  induction bs generalizing v with
  | nil =>
    obtain rfl := Option.some_inj.mp hrun
    exact hreading
  | cons b bs ih =>
    obtain ⟨u, hu, hrun⟩ := Option.bind_eq_some_iff.mp hrun
    rw [List.mem_cons, not_or] at hclose hdestroy
    refine ih ?_ hclose.2 hdestroy.2 hrun
    rw [(steps_step hu).reading]
    cases b with
    | close => exact absurd rfl hclose.1
    | destroy => exact absurd rfl hdestroy.1
    | establish => rfl
    | _ => exact hreading

/-- Only `HandleClose` and `ConnDestroyed` unsubscribe a channel. -/
theorem reading_kept (hplaced : Placed cfg s) (hg : guard cfg s a = true)
    (hok : effect cfg s a = .ok t) (hreading : (s.conns c).channel.isReading = true)
    (hcloses : closes s a ≠ some c) (hruns : runs s a ≠ some (.connDestroyed c)) :
    (t.conns c).channel.isReading = true := by
  have hrun := (run_labels hplaced hg hok (hplaced.lt_nextObj_of_reading hreading)).2
  have hview : (view t c).reading = true := by
    refine reading_run (v := view s c) hreading (fun hmem => ?_) (fun hmem => ?_) hrun
    · exact hcloses (closes_of_mem hmem)
    · exact hruns (runs_of_destroy_mem hmem)
  exact hview

/-- Who is closed is the connection of a callback that ends it. -/
theorem callback_of_closes (hhandled : Handled s) (hg : guard cfg s a = true)
    (hcloses : closes s a = some c) : ∃ i cb todo active, callback a = some (i, cb) ∧
      cb.ends = true ∧ (s.loops i).phase = .handling c (cb :: todo) active ∧
      (s.loops i).frame = none := by
  have found : ∀ {i : LoopId} {cb : Channel.Callback} {p : ConnId → Channel.Callback → Bool},
      callbackIs cfg s i p = true → (∀ c cb', p c cb' = true → cb' = cb) → ∃ todo active,
        (s.loops i).phase = .handling (handled s i) (cb :: todo) active ∧
          (s.loops i).frame = none := by
    intro i cb p hp hcb
    have hfree := (handled_of_callbackIs hp).2
    rw [callbackIs] at hp
    split at hp
    · next d cb' todo active hphase =>
      simp only [Bool.and_eq_true] at hp
      obtain rfl := hcb d cb' hp.2
      exact ⟨todo, active, by rw [handled, hphase], hfree⟩
    · exact absurd hp (by simp)
  cases a with
  | handleClose i =>
    obtain rfl := Option.some_inj.mp hcloses
    obtain ⟨todo, active, hphase, hfree⟩ := found hg fun _ _ hcb => of_decide_eq_true hcb
    exact ⟨i, _, todo, active, rfl, rfl, hphase, hfree⟩
  | handleRead i readv =>
    simp only [closes, Option.ite_none_right_eq_some] at hcloses
    obtain rfl := Option.some_inj.mp hcloses.2
    have hread : ∀ (d : ConnId) (cb : Channel.Callback),
        (cb = .read && readv.all fun data => data.length ≤
          (s.conns d).input.writableBytes + Buffer.extraSize) = true → cb = .read := by
      intro d cb hcb
      simp only [Bool.and_eq_true, decide_eq_true_eq] at hcb
      exact hcb.1
    obtain ⟨todo, active, hphase, hfree⟩ := found hg hread
    exact ⟨i, _, todo, active, rfl, rfl, hphase, hfree⟩
  | closeTimer d =>
    simp only [guard, Bool.and_eq_true, hhandled.closeTimers] at hg
    exact absurd hg.2 (by simp)
  | _ => exact absurd hcloses (by simp [closes])

/-- `ConnDestroyed` runs on the thread of its loop, when that is in no user code. -/
theorem free_of_runs (hplaced : Placed cfg s) (hg : guard cfg s a = true)
    (hruns : runs s a = some (.connDestroyed c)) : (s.loops (own s c)).frame = none := by
  cases a with
  | runFunctor j wr =>
    obtain ⟨fs, hrest⟩ := List.head?_eq_some_iff.mp hruns
    obtain ⟨-, rfl⟩ := hplaced.functors j _ (mem_todo_of_rest hrest)
    simp only [guard, Bool.and_eq_true] at hg
    exact frame_of_free hg.1.1
  | _ => exact absurd hruns (by simp [runs])

/-! ### Out of the epoll instance -/

/-- `HandleClose` takes a channel that was added out of the epoll instance. -/
theorem deleted_of_handleClose {site : Access} (hadded : (s.conns c).channel.index = kAdded)
    (hok : handleClose s c site = .ok t) : (t.conns c).channel.index = kDeleted := by
  obtain ⟨m, hm, hok⟩ := bind_eq_ok_iff.mp hok
  have hdeleted : (m.conns c).channel.index = kDeleted := by
    obtain ⟨-, l, hl, rfl⟩ := method_eq_ok_iff.mp hm
    obtain ⟨-, hl⟩ := check_bind_eq_ok_iff.mp hl
    obtain ⟨k, hk, hl⟩ := bind_eq_ok_iff.mp hl
    obtain rfl := pure_eq_ok_iff.mp hl
    obtain ⟨poller, index, hupdate, rfl⟩ := Local.update_ok hk
    have hchannel := updateChannel_index hupdate
    have hadded' : (s.conns c).channel.disableAll.index = kAdded := hadded
    have hnone : (s.conns c).channel.disableAll.isNoneEvent = true := decide_eq_true rfl
    rw [conns_putLocal, if_pos rfl]
    change index = kDeleted
    have hindex := congrArg Channel.index hchannel
    simp only [localOf, hadded', hnone, and_self, if_true] at hindex
    exact hindex
  split at hok
  · exact ((stays_removeConnectionInLoop (d := none) hok).index c (by simp)).trans hdeleted
  · obtain rfl := pure_eq_ok_iff.mp hok
    exact hdeleted

/-- After `HandleClose` the channel is `kDeleted`. -/
theorem deleted_of_closes (hadded : (s.conns c).channel.index = kAdded)
    (hok : effect cfg s a = .ok t) (hcloses : closes s a = some c) :
    (t.conns c).channel.index = kDeleted := by
  cases a with
  | handleClose i =>
    obtain rfl := Option.some_inj.mp hcloses
    exact deleted_of_handleClose (by rw [nextCallback_frame.1]; exact hadded) hok
  | handleRead i readv =>
    simp only [closes, Option.ite_none_right_eq_some] at hcloses
    obtain ⟨rfl, heq⟩ := hcloses
    obtain rfl := Option.some_inj.mp heq
    have hok : handleRead (nextCallback s i) (handled s i) (some []) = .ok t := hok
    obtain ⟨m, ⟨input, rfl⟩, ⟨-, hclose⟩ | ⟨hne, -⟩⟩ := handleRead_cases hok
    · refine deleted_of_handleClose ?_ hclose
      rw [conns_setConn, if_pos rfl, nextCallback_frame.1]
      exact hadded
    · exact absurd rfl hne
  | closeTimer d =>
    obtain rfl := Option.some_inj.mp hcloses
    refine deleted_of_handleClose ?_ hok
    rw [conns_setConn, if_pos rfl]
    exact hadded
  | _ => exact absurd hcloses (by simp [closes])

/-- `HandleClose` is a method of the connection that is closed. -/
theorem subject_of_closes (hcloses : closes s a = some c) : subject cfg s a = some c := by
  cases a with
  | handleClose i | handleRead i readv | closeTimer d => exact hcloses
  | _ => exact absurd hcloses (by simp [closes])

end TcpServer
end Bbkgl
