import Bbkgl.Net.TcpServerPlaced

/-!
# Changes that leave the pollers alone

`Calm s t`: from `s` to `t` no object has been made or has gone, and no channel and no
poller has changed. Most of what the server does is calm; the rest is the one
`UpdateChannel` or `RemoveChannel` of a method.
-/

set_option autoImplicit false

namespace Bbkgl
namespace TcpServer

open CS TcpConnection

/-- The channel of the connection, its loop and its existence are as before. -/
structure SameChannel (conn conn' : TcpConnection) : Prop where
  loop : conn'.loop = conn.loop
  fd : conn'.channel.fd = conn.channel.fd
  index : conn'.channel.index = conn.channel.index
  events : conn'.channel.events = conn.channel.events
  alive : conn'.alive = conn.alive

theorem SameChannel.rfl {conn : TcpConnection} : SameChannel conn conn :=
  ⟨.refl _, .refl _, .refl _, .refl _, .refl _⟩

theorem SameChannel.trans {conn conn' conn'' : TcpConnection} (h : SameChannel conn conn')
    (h' : SameChannel conn' conn'') : SameChannel conn conn'' :=
  ⟨h'.loop.trans h.loop, h'.fd.trans h.fd, h'.index.trans h.index, h'.events.trans h.events,
    h'.alive.trans h.alive⟩

/-- The connections whose channels are still to be handled in the walk. -/
def walked : Phase → List ConnId
  | .dispatch active => active.map Prod.fst
  | .handling c _ active => c :: active.map Prod.fst
  | .poll | .functors => []

/-- The thread is in the user's callback of `ConnDestroyed`, and `RemoveChannel` is next. -/
def removing (s : State) (c : ConnId) : Prop :=
  ∃ message, (s.loops (own s c)).frame = some ⟨some c, message, true⟩

/-- No object begins or goes, and no channel and no poller changes. -/
structure Calm (s t : State) : Prop where
  nextObj : t.nextObj = s.nextObj
  conn : ∀ c, SameChannel (s.conns c) (t.conns c)
  poller : ∀ i, (t.loops i).poller = (s.loops i).poller

variable {cfg : Config} {s t u : State} {i : LoopId} {c : ConnId} {who : Caller}

theorem Calm.rfl : Calm s s := ⟨.refl _, fun _ => .rfl, fun _ => .refl _⟩

theorem Calm.trans (h : Calm s t) (h' : Calm t u) : Calm s u where
  nextObj := h'.nextObj.trans h.nextObj
  conn c := (h.conn c).trans (h'.conn c)
  poller i := (h'.poller i).trans (h.poller i)

theorem Calm.own (h : Calm s t) : own t c = TcpServer.own s c := (h.conn c).loop

theorem calm_setLoop {g : Loop → Loop} (hpoller : (g (s.loops i)).poller = (s.loops i).poller) :
    Calm s (setLoop s i g) := by
  refine ⟨rfl, fun _ => .rfl, fun j => ?_⟩
  rw [loops_setLoop]
  split
  · next h => rw [h, hpoller]
  · rfl

theorem calm_setFunctors {m : Mailbox Functor} : Calm s (setFunctors s i m) := by
  rw [setFunctors]
  exact calm_setLoop rfl

theorem calm_setConn {g : TcpConnection → TcpConnection}
    (hsame : SameChannel (s.conns c) (g (s.conns c))) : Calm s (setConn s c g) := by
  refine ⟨rfl, fun d => ?_, fun _ => rfl⟩
  rw [conns_setConn]
  split
  · next h => exact h ▸ hsame
  · exact .rfl

theorem calm_setCall {call : Option Call} : Calm s (setCall s who call) :=
  ⟨rfl, fun _ => .rfl, fun _ => rfl⟩

theorem calm_connections {m : String → Option ConnId} : Calm s { s with connections := m } :=
  ⟨rfl, fun _ => .rfl, fun _ => rfl⟩

theorem calm_nextCallback : Calm s (nextCallback s i) := by
  rw [nextCallback]
  split
  · exact calm_setLoop rfl
  · exact .rfl

end TcpServer
end Bbkgl
