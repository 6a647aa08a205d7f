import Bbkgl.Net.ThreadsConfined

/-!
# What the other threads leave alone

The data behind the confinement of calls. No thread but its own changes the timers
of a loop, the map of its poller or the channels that it watches, and none but the
base loop's changes `connections_`. What other threads do reach is the queue, and
the epoll instance when a descriptor is closed.
-/

set_option autoImplicit false

namespace Bbkgl
namespace Threads

open CS CS.Fallible CS.Transition TcpConnection

/-- What loop `i` has for itself is as before. -/
structure Untouched (s t : State) (i : LoopId) : Prop where
  threadId : (t.loops i).threadId = (s.loops i).threadId
  timers : (t.loops i).timers = (s.loops i).timers
  channels : (t.loops i).channels = (s.loops i).channels
  poller : (t.loops i).poller.channels = (s.loops i).poller.channels

/-- The thread `me` has kept to what is its own. -/
structure Leaves (me : Caller) (s t : State) : Prop where
  loops : ∀ i, me ≠ .loop i → Untouched s t i
  connections : me ≠ .loop 0 → t.connections = s.connections

variable {cfg : TcpServer.Config} {me : Caller} {k : Choice} {s t : State} {i j : LoopId}
  {c : ConnId} {f : Call} {next : List Call}

theorem untouched_of_loops (h : t.loops i = s.loops i) : Untouched s t i := by
  refine ⟨?_, ?_, ?_, ?_⟩ <;> rw [h]

theorem leaves_of_same (hloops : t.loops = s.loops) (hconns : t.connections = s.connections) :
    Leaves me s t :=
  ⟨fun i _ => untouched_of_loops (congrFun hloops i), fun _ => hconns⟩

theorem Leaves.refl : Leaves me s s := leaves_of_same rfl rfl

theorem leaves_setLoop {g : Loop → Loop} (hme : me = .loop j) : Leaves me s (setLoop s j g) := by
  refine ⟨fun i hi => untouched_of_loops (loops_setLoop_of_ne ?_), fun _ => rfl⟩
  rintro rfl
  exact hi hme

theorem leaves_push : Leaves me s (push s j f) := by
  refine ⟨fun i _ => ?_, fun _ => rfl⟩
  by_cases h : i = j
  · subst h
    rw [push]
    refine ⟨?_, ?_, ?_, ?_⟩ <;> rw [loops_setLoop]
  · exact untouched_of_loops (loops_setLoop_of_ne h)

theorem leaves_methodThen (hown : OnOwn s me c) {site : Access} {g : Local → Except Fault Local}
    {calls : List Call} (hok : methodThen s c site g calls = .ok (t, next)) : Leaves me s t := by
  obtain ⟨m, hm, hok⟩ := bind_eq_ok_iff.mp hok
  obtain ⟨rfl, rfl⟩ := Prod.mk.inj (pure_eq_ok_iff.mp hok)
  obtain ⟨-, hm⟩ := check_bind_eq_ok_iff.mp hm
  obtain ⟨l, -, hm⟩ := bind_eq_ok_iff.mp hm
  obtain rfl := pure_eq_ok_iff.mp hm
  have hloop := leaves_setLoop (g := fun loop => { loop with
    poller := l.poller, pending := loop.pending ++ l.queued.map fun _ => .user }) (s := s) hown.2.1
  exact ⟨fun i hi => ⟨(hloop.loops i hi).threadId, (hloop.loops i hi).timers,
    (hloop.loops i hi).channels, (hloop.loops i hi).poller⟩, fun _ => rfl⟩

theorem leaves_handleRead (hok : handleRead k s c = .ok (t, next)) : Leaves me s t := by
  obtain ⟨-, hok⟩ := check_bind_eq_ok_iff.mp hok
  split at hok
  · exact absurd hok (by simp)
  · obtain ⟨rfl, rfl⟩ := Prod.mk.inj (pure_eq_ok_iff.mp hok)
    exact leaves_of_same rfl rfl

/-- A descriptor may be closed from anywhere, which `channels_` does not see. -/
theorem leaves_destroy (hok : effect cfg me k s (.destroy c) = .ok (t, next)) :
    Leaves me s t := by
  obtain ⟨rfl, rfl⟩ := Prod.mk.inj (Except.ok.inj hok)
  refine ⟨fun i _ => ?_, fun _ => rfl⟩
  by_cases h : i = own s c
  · subst h
    refine ⟨?_, ?_, ?_, ?_⟩ <;> (rw [loops_setLoop]; rfl)
  · exact untouched_of_loops (loops_setLoop_of_ne h)

/-- No function touches another thread's loop. -/
theorem leaves_effect (hhome : Home s me f) (hok : effect cfg me k s f = .ok (t, next)) :
    Leaves me s t := by
  cases f with
  | main =>
    obtain ⟨rfl, rfl⟩ := Prod.mk.inj (Except.ok.inj hok)
    exact leaves_setLoop hhome
  | threadFunc i =>
    obtain ⟨rfl, rfl⟩ := Prod.mk.inj (Except.ok.inj hok)
    exact leaves_setLoop hhome
  | enableReading i p =>
    obtain ⟨rfl, rfl⟩ := Prod.mk.inj (Except.ok.inj hok)
    exact leaves_setLoop hhome.1.1
  | doPendingFunctors i =>
    obtain ⟨rfl, rfl⟩ := Prod.mk.inj (Except.ok.inj hok)
    exact leaves_setLoop hhome.1
  | addTimerInLoop i cb repeats =>
    obtain ⟨rfl, rfl⟩ := Prod.mk.inj (Except.ok.inj hok)
    exact leaves_setLoop hhome.1.1
  | timerRead i =>
    obtain ⟨rfl, rfl⟩ := Prod.mk.inj (Except.ok.inj hok)
    exact leaves_setLoop hhome.1
  | restart i cb =>
    obtain ⟨rfl, rfl⟩ := Prod.mk.inj (Except.ok.inj hok)
    exact leaves_setLoop hhome.1.1
  | queueInLoop i cb =>
    obtain ⟨rfl, rfl⟩ := Prod.mk.inj (Except.ok.inj hok)
    exact leaves_push
  | newConnection fd =>
    obtain ⟨rfl, rfl⟩ := Prod.mk.inj (Except.ok.inj hok)
    exact ⟨fun i _ => untouched_of_loops rfl, fun hme => absurd hhome.1 hme⟩
  | removeConnectionInLoop c =>
    obtain ⟨m, hm, hok⟩ := bind_eq_ok_iff.mp hok
    obtain ⟨rfl, rfl⟩ := Prod.mk.inj (pure_eq_ok_iff.mp hok)
    simp only [eraseConnection] at hm
    split at hm
    · obtain rfl := Except.ok.inj hm
      exact ⟨fun i _ => untouched_of_loops rfl, fun hme => absurd hhome.1.1 hme⟩
    · exact absurd hm (by simp)
  | connEstablished c => exact leaves_methodThen hhome hok
  | connDestroyed c => exact leaves_methodThen hhome hok
  | removeChannel c => exact leaves_methodThen hhome hok
  | handleWrite c => exact leaves_methodThen hhome hok
  | handleClose c => exact leaves_methodThen hhome hok
  | sendInLoop c sender message => exact leaves_methodThen hhome.1 hok
  | shutdownInLoop c => exact leaves_methodThen hhome hok
  | handleRead c => exact leaves_handleRead hok
  | destroy c => exact leaves_destroy hok
  | loop i =>
    simp only [effect] at hok
    split at hok
    · obtain ⟨rfl, rfl⟩ := Prod.mk.inj (Except.ok.inj hok)
      exact .refl
    · split at hok
      · obtain ⟨rfl, rfl⟩ := Prod.mk.inj (Except.ok.inj hok)
        exact .refl
      · exact absurd hok (by simp)
  | handleEvent i p revents =>
    obtain ⟨-, -, hok⟩ := bind_eq_ok_iff.mp hok
    obtain ⟨rfl, rfl⟩ := Prod.mk.inj (pure_eq_ok_iff.mp hok)
    exact .refl
  | start =>
    simp only [effect] at hok
    split at hok
    · obtain ⟨rfl, rfl⟩ := Prod.mk.inj (Except.ok.inj hok)
      exact .refl
    · obtain ⟨rfl, rfl⟩ := Prod.mk.inj (Except.ok.inj hok)
      exact leaves_of_same rfl rfl
  | inputBuffer c u =>
    simp only [effect] at hok
    split at hok
    · obtain ⟨rfl, rfl⟩ := Prod.mk.inj (Except.ok.inj hok)
      exact leaves_of_same rfl rfl
    · exact absurd hok (by simp)
  | _ =>
    obtain ⟨rfl, rfl⟩ := Prod.mk.inj (Except.ok.inj hok)
    exact leaves_of_same rfl rfl

/-- In every run: what a thread does leaves alone what belongs to another. -/
theorem leaves_of_step {s t : CallStack Caller Call State} {as : List (Caller × Choice)}
    {a : Caller × Choice} (h : Reach (step cfg) Always (init cfg) as s)
    (hstep : step cfg s a = some t) : Leaves a.1 s.data t.data := by
  obtain ⟨hgood, hhome⟩ := keeps_exec.reach h good_init atHome_init
  obtain ⟨f, fs, next, hstack, hexec, -⟩ := CallStack.step_eq_some hstep
  have hf : Home s.data a.1 f := hhome a.1 f (hstack ▸ List.mem_cons_self)
  obtain ⟨-, hok | ⟨⟨e, he⟩, -⟩⟩ := exec_eq_some hexec
  · have hleaves := leaves_effect (hf.mono (hgood.record hf).ext) hok
    exact ⟨fun i hi => ⟨(hleaves.loops i hi).threadId, (hleaves.loops i hi).timers,
      (hleaves.loops i hi).channels, (hleaves.loops i hi).poller⟩, hleaves.connections⟩
  · rw [he]
    exact leaves_of_same rfl rfl

end Threads
end Bbkgl
