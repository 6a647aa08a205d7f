import Bbkgl.Net.BufferShrink
import Bbkgl.Net.TcpConnectionReady
import Bbkgl.Net.TcpServerHandling
import Bbkgl.Net.TcpServerInput
import Bbkgl.Net.TcpServerWatching

/-!
# Channels that stand in their pollers

As long as no descriptor has a stale entry, the channel of every connection stands in
the poller of its loop as its index says, and so does its record in the epoll instance.
Then `UpdateChannel` has nothing to complain about, whichever method calls it.
-/

set_option autoImplicit false

namespace Bbkgl

namespace Epoller

variable {P : Type*} {p : P} {ch ch' : Channel} {entry : Option P} {record : Option (EventMask × P)}

/-- Of the channel only the index and the events count. -/
theorem Standing.congr (h : Standing p ch entry record) (hindex : ch'.index = ch.index)
    (hevents : ch'.events = ch.events) : Standing p ch' entry record := by
  cases h with
  | new hnew => exact .new (hindex.trans hnew)
  | added hadded => exact hevents ▸ .added (hindex.trans hadded)
  | deleted hdeleted => exact .deleted (hindex.trans hdeleted)

end Epoller

namespace TcpServer

open CS CS.Fallible CS.Transition TcpConnection Connection Epoller

/-- What `channels_` of loop `i` has at the descriptor. -/
def channelAt (s : State) (i : LoopId) (fd : ℕ) : Option ConnId :=
  (s.loops i).poller.channels fd

/-- The channels of the connections that exist stand in the pollers of their loops, and
no two of them have one descriptor. -/
structure Agreeing (s : State) : Prop where
  standing : ∀ c, (s.conns c).alive = true → Standing c (s.conns c).channel
    (channelAt s (own s c) (s.conns c).channel.fd) (kernelAt s (own s c) (s.conns c).channel.fd)
  distinct : ∀ c d, (s.conns c).alive = true → (s.conns d).alive = true →
    (s.conns c).channel.fd = (s.conns d).channel.fd → c = d

variable {cfg : Config} {s m t : State} {i : LoopId} {c d : ConnId} {a : Action}
  {as : List Action} {l l' : Local} {entry : Option ConnId} {record : Option (EventMask × ConnId)}

theorem conns_withNewObject {fd : ℕ} : (withNewObject cfg s fd).conns c = if c = s.nextObj then
    .new (getNextLoop cfg s).1 (connName cfg (s.nextConnId + 1)) fd cfg.writeComplete
    else s.conns c :=
  Function.update_apply _ _ _ _

namespace Agreeing

theorem congr (h : Agreeing s) (hpoller : ∀ i, (t.loops i).poller = (s.loops i).poller)
    (hconn : ∀ c, SameChannel (s.conns c) (t.conns c)) : Agreeing t where
  standing := by
    intro c hc
    rw [(hconn c).alive] at hc
    rw [channelAt, kernelAt, own, (hconn c).loop, (hconn c).fd, hpoller]
    exact (h.standing c hc).congr (hconn c).index (hconn c).events
  distinct := by
    intro c d
    rw [(hconn c).alive, (hconn d).alive, (hconn c).fd, (hconn d).fd]
    exact h.distinct c d

/-- The channel of `c` has changed, and what is at its descriptor. -/
theorem update (h : Agreeing s) (halive : (s.conns c).alive = true)
    (hfixed : Local.Fixed (s.conns c) (t.conns c)) (hother : ∀ d, d ≠ c → t.conns d = s.conns d)
    (hstanding : Standing c (t.conns c).channel entry record)
    (hchannel : ∀ i fd, channelAt t i fd =
      if i = own s c ∧ fd = (s.conns c).channel.fd then entry else channelAt s i fd)
    (hkernel : ∀ i fd, kernelAt t i fd =
      if i = own s c ∧ fd = (s.conns c).channel.fd then record else kernelAt s i fd) :
    Agreeing t := by
  have hfix : ∀ d, Local.Fixed (s.conns d) (t.conns d) := fun d => by
    by_cases hd : d = c
    · exact hd ▸ hfixed
    · exact hother d hd ▸ .rfl
  refine ⟨fun d hd => ?_, fun d e => ?_⟩
  · rw [(hfix d).alive] at hd
    rw [hchannel, hkernel, own, (hfix d).loop, (hfix d).fd]
    by_cases hdc : d = c
    · subst hdc
      rw [if_pos ⟨rfl, rfl⟩, if_pos ⟨rfl, rfl⟩]
      exact hstanding
    · have hplace : ¬ (own s d = own s c ∧ (s.conns d).channel.fd = (s.conns c).channel.fd) :=
        fun hplace => hdc (h.distinct d c hd halive hplace.2)
      rw [if_neg hplace, if_neg hplace, hother d hdc]
      exact h.standing d hd
  · rw [(hfix d).alive, (hfix e).alive, (hfix d).fd, (hfix e).fd]
    exact h.distinct d e

theorem rewires (h : Agreeing s) (hrewires : Rewires s t) : Agreeing t := by
  cases hrewires with
  | same hcalm => exact h.congr hcalm.poller hcalm.conn
  | call c poller halive hnext hfixed hother hpoller hcall =>
    have hstanding := h.standing c halive
    have hupdate {entry record} (hstands : Standing c (t.conns c).channel entry record)
        (hchannels : poller.channels = Function.update (s.loops (own s c)).poller.channels
          (s.conns c).channel.fd entry)
        (hkernel : poller.kernel = Function.update (s.loops (own s c)).poller.kernel
          (s.conns c).channel.fd record) : Agreeing t := by
      refine h.update halive hfixed hother hstands (fun i fd => ?_) fun i fd => ?_
      · rw [channelAt, channelAt, hpoller]
        by_cases hi : i = own s c
        · simp only [hi, true_and, if_true, hchannels, Function.update_apply]
        · simp only [hi, false_and, if_false]
      · rw [kernelAt, kernelAt, hpoller]
        by_cases hi : i = own s c
        · simp only [hi, true_and, if_true, hkernel, Function.update_apply]
        · simp only [hi, false_and, if_false]
    cases hcall with
    | update change hok =>
      obtain ⟨events, hevents⟩ := change.apply_eq (s.conns c).channel
      rw [hevents] at hok
      have hindex : ({ (s.conns c).channel with events := events } : Channel).index =
          (s.conns c).channel.index := rfl
      obtain ⟨poller', ch, entry, record, hok', -, -, hchannels, hkernel, hstands⟩ :=
        hstanding.updateChannel hindex rfl rfl
      obtain ⟨rfl, hch⟩ := Prod.mk.inj (Except.ok.inj (hok.symm.trans hok'))
      exact hupdate (hch ▸ hstands) hchannels hkernel
    | remove hok =>
      obtain ⟨⟨hknown, hnone⟩, -⟩ := removeChannel_cases hok
      obtain ⟨poller', hok', -, hchannels, hkernel⟩ :=
        hstanding.removeChannel rfl rfl hknown hnone
      obtain ⟨rfl, hch⟩ := Prod.mk.inj (Except.ok.inj (hok.symm.trans hok'))
      have hnew : (t.conns c).channel.index = kNew := by rw [hch]
      exact hupdate (.new hnew) hchannels hkernel

theorem moves (h : Agreeing s) (hmoves : Moves s t) : Agreeing t :=
  hmoves.rewired h fun h hrewires => h.rewires hrewires

/-- A new object, at a descriptor where nothing is left. -/
theorem withNewObject (h : Agreeing s) (hwatching : Watching s) (hplaced : Placed cfg s) {fd : ℕ}
    (hfd : ∀ c < s.nextObj, (s.conns c).alive = true → (s.conns c).channel.fd ≠ fd)
    (hchannel : ∀ i, channelAt s i fd = none) : Agreeing (withNewObject cfg s fd) := by
  have hkernel : ∀ i, kernelAt s i fd = none := by
    intro i
    by_contra hne
    obtain ⟨⟨mask, d⟩, hd⟩ := Option.ne_none_iff_exists'.mp hne
    obtain ⟨⟨-, hdfd⟩, halive, -⟩ := hwatching.record i fd mask d hd
    exact hfd d (hplaced.lt_nextObj_of_alive halive) halive hdfd
  refine ⟨fun c hc => ?_, (hwatching.withNewObject hplaced hfd).distinct⟩
  rw [own]
  rw [conns_withNewObject] at hc ⊢
  split
  · change Standing c (.new fd) (channelAt s (getNextLoop cfg s).1 fd)
      (kernelAt s (getNextLoop cfg s).1 fd)
    rw [hchannel, hkernel]
    exact .new rfl
  · next hcn =>
    rw [if_neg hcn] at hc
    exact h.standing c hc

/-- The end of an object: the others have other descriptors. -/
theorem releases (h : Agreeing s) (hc : (s.conns c).alive = true) (hreleases : Releases s t c) :
    Agreeing t := by
  have halive : ∀ d, (t.conns d).alive = true → d ≠ c ∧ t.conns d = s.conns d := by
    intro d hd
    by_cases hdc : d = c
    · rw [hdc, hreleases.self] at hd
      exact absurd hd (by simp)
    · exact ⟨hdc, hreleases.other d hdc⟩
  have hchannel : ∀ i fd, channelAt t i fd = channelAt s i fd := by
    intro i fd
    rw [channelAt, hreleases.poller]
    split
    · next hi => rw [hi]; rfl
    · rfl
  have hkernel : ∀ i fd, fd ≠ (s.conns c).channel.fd → kernelAt t i fd = kernelAt s i fd := by
    intro i fd hfd
    rw [kernelAt, hreleases.poller]
    split
    · next hi => simp [hi, Epoller.close, hfd, kernelAt]
    · rfl
  refine ⟨fun d hd => ?_, fun d e hd he => ?_⟩
  · obtain ⟨hdc, hconn⟩ := halive d hd
    rw [hconn] at hd
    have hfd : (s.conns d).channel.fd ≠ (s.conns c).channel.fd :=
      fun hfd => hdc (h.distinct d c hd hc hfd)
    rw [own, hconn, hchannel, hkernel _ _ hfd]
    exact h.standing d hd
  · have hdconn := (halive d hd).2
    have heconn := (halive e he).2
    rw [hdconn] at hd ⊢
    rw [heconn] at he ⊢
    exact h.distinct d e hd he

/-- The beginning of a step keeps the channels in place. -/
theorem begins (h : Agreeing s) (hwatching : Watching s) (hplaced : Placed cfg s)
    (hreg : Registered s) (hgone : ∀ c, c < s.nextObj → Gone s c) (hg : guard cfg s a = true)
    (hbegins : Begins cfg s a m) : Agreeing m := by
  refine hbegins.rewired h (fun h hrewires => h.rewires hrewires) (fun fd ha => ?_) ?_
  · subst ha
    have hfree := fd_free_of_guard hg
    refine h.withNewObject hwatching hplaced hfree fun i => ?_
    by_contra hne
    obtain ⟨e, he⟩ := Option.ne_none_iff_exists'.mp hne
    obtain ⟨⟨halive, hfd⟩, -⟩ := alive_of_entry hreg hgone he
    exact hfree e (hreg.entry he).1.1 halive hfd
  · exact fun c m ha hreleases => h.releases (alive_of_guard (ha ▸ hg)) hreleases

/-- A method of a connection that exists finds its channel in place. -/
theorem ready (h : Agreeing s) (hwf : (s.conns c).output.WF) (halive : (s.conns c).alive = true) :
    Local.Ready c (localOf s c) :=
  ⟨hwf, h.standing c halive⟩

end Agreeing

/-- In such a run every channel is in place. -/
theorem agreeing_of_reach
    (hrun : Reach (step cfg) (fun s a => handlesSafely cfg s a = true) State.init as s) :
    Agreeing s := by
  refine hrun.invariant (I := Agreeing) ?_ ?_
  · have hdead : ∀ c, ¬ (State.init.conns c).alive = true := fun c => by simp [State.init]
    exact ⟨fun c hc => absurd hc (hdead c), fun c _ hc => absurd hc (hdead c)⟩
  · rintro bs u a t hprefix h - hstep
    obtain ⟨-, hg, heffect | ⟨f, -, rfl⟩⟩ := step_cases hstep
    · obtain ⟨-, hgone⟩ := handled_of_reach hprefix
      obtain ⟨m, hbegins, hmoves⟩ := moves_effect hg heffect
      have hm : Agreeing m :=
        h.begins (watching_of_reach hprefix) (placed_of_reach hprefix) (registered_of_reach hprefix)
          hgone hg hbegins
      exact hm.moves hmoves
    · exact h.congr (fun _ => rfl) fun _ => .rfl

/-! ### Input buffers -/

/-- What user code asks of an input buffer, the buffer can do. -/
def fitsBuffer (s : State) : Action → Bool
  | .inputBuffer i u =>
    ((s.loops i).frame.bind Frame.conn).all fun c => u.Admissible (s.conns c).input
  | _ => true

theorem inputs_begins (hinputs : ∀ c, (s.conns c).input.WF) (hfits : fitsBuffer s a = true)
    (hg : guard cfg s a = true) (hbegins : Begins cfg s a m) (c : ConnId) :
    (m.conns c).input.WF := by
  cases hbegins with
  | handleRead i readv input n hread =>
    have hinput := (Buffer.yields_of_readFd (hinputs (handled s i)) (readv_le_of_guard hg) hread).1
    rw [conns_setConn, nextCallback_frame.1]
    split
    · exact hinput
    · exact hinputs c
  | newConnection fd =>
    rw [conns_withNewObject]
    split
    · exact Buffer.wf_new
    · exact hinputs c
  | inputBuffer i u d input hd hexec =>
    rw [fitsBuffer, hd, Option.all_some, decide_eq_true_eq] at hfits
    obtain ⟨input', hok, hwf⟩ := Buffer.Use.exec_wf (hinputs d) hfits
    obtain rfl := Except.ok.inj (hok.symm.trans hexec)
    rw [conns_setConn]
    split
    · exact hwf
    · exact hinputs c
  | destroy d =>
    have hconns : (setLoop (setConn s d fun conn => { conn with alive := false }) (own s d)
        fun l => { l with poller := l.poller.close (s.conns d).channel.fd }).conns c =
        (setConn s d fun conn => { conn with alive := false }).conns c := rfl
    rw [hconns, conns_setConn]
    split
    · exact hinputs d
    · exact hinputs c
  | plain => exact hinputs c

/-- Input buffers are well formed, as long as user code keeps to their bounds. -/
theorem inputs_of_reach {ok : State → Action → Prop}
    (hok : ∀ {s a}, ok s a → fitsBuffer s a = true)
    (hrun : Reach (step cfg) ok State.init as s) : ∀ c, (s.conns c).input.WF := by
  refine hrun.invariant (I := fun s => ∀ c, (s.conns c).input.WF) (fun _ => Buffer.wf_new) ?_
  rintro bs u a t - hinputs ha hstep c
  obtain ⟨-, hg, heffect | ⟨f, -, rfl⟩⟩ := step_cases hstep
  · obtain ⟨m, hbegins, hmoves⟩ := moves_effect hg heffect
    rw [(hmoves.keeps.conn c).input]
    exact inputs_begins hinputs (hok ha) hg hbegins c
  · exact hinputs c

end TcpServer
end Bbkgl
