import Bbkgl.Net.Application

/-!
# The programs

The callbacks of the programs that come with the server, without what they print. Some
send back what they receive: an application that `Echoes` says a greeting first, and
then what it has heard.
-/

set_option autoImplicit false

namespace Bbkgl
namespace Application

/-- `test9.cpp` and `test9_1.cpp` -/
def test9 : Application where
  onConnection _ := []
  onMessage recv := [.send recv]
  onWriteComplete := []

/-- `test10.cpp` and `test10_1.cpp` -/
def test10 (msg1 msg2 : Bytes) : Application where
  onConnection up := if up then [.send msg1, .send msg2, .shutdown] else []
  onMessage recv := [.send recv]
  onWriteComplete := []

/-- `test11.cpp` and `test11_1.cpp` -/
def test11 (msg : Bytes) : Application where
  onConnection up := if up then [.send msg] else []
  onMessage _ := []
  onWriteComplete := [.send msg]

/-- `"Hello!"` -/
def hello : Bytes := [72, 101, 108, 108, 111, 33]

/-- `example/main.cpp` -/
def exampleMain : Application where
  onConnection _ := [.send hello]
  onMessage s := [.send s, .close]
  onWriteComplete := []

/-- The application says `greeting`, then says again what it hears, and does not shut
down. -/
structure Echoes (app : Application) (greeting : Bytes) : Prop where
  greets : (app.onConnection true).flatMap Command.bytes = greeting
  repeats : ∀ data, (app.onMessage data).flatMap Command.bytes = data
  quiet : app.onWriteComplete.flatMap Command.bytes = []
  stays : ∀ e, .shutdown ∉ app.answer e

/-- `test9` echoes. -/
theorem test9_echoes : test9.Echoes [] where
  greets := rfl
  repeats data := List.append_nil data
  quiet := rfl
  stays e := by
    cases e with
    | connection up | message data | writeComplete => simp [answer, test9]

/-- The example's server echoes behind a greeting. -/
theorem exampleMain_echoes : exampleMain.Echoes hello where
  greets := rfl
  repeats data := List.append_nil data
  quiet := rfl
  stays e := by
    cases e with
    | connection up | message data | writeComplete => simp [answer, exampleMain]

variable {app : Application} {greeting : Bytes} {d : Dialogue} {events mid : List Event}

theorem delivered_of_stays {cs : List Command} (h : .shutdown ∉ cs) :
    delivered cs = cs.flatMap Command.bytes := by
  rw [delivered, takeWhile_ne_of_notMem h]

/-- An echoing application never shuts down. -/
theorem Echoes.stays_flatMap (h : app.Echoes greeting) : .shutdown ∉ events.flatMap app.answer := by
  intro hmem
  obtain ⟨e, -, he⟩ := List.mem_flatMap.mp hmem
  exact h.stays e he

/-- It says what it hears. -/
theorem Echoes.bytes_traffic (h : app.Echoes greeting) (hmid : mid.all Dialogue.isTraffic = true) :
    (mid.flatMap app.answer).flatMap Command.bytes = heard mid := by
  induction mid with
  | nil => rfl
  | cons e mid ih =>
    rw [List.all_cons, Bool.and_eq_true] at hmid
    rw [List.flatMap_cons, List.flatMap_append, ih hmid.2, heard_cons]
    congr 1
    cases e with
    | connection up => exact absurd hmid.1 (by simp [Dialogue.isTraffic])
    | message data => exact h.repeats data
    | writeComplete => exact h.quiet

end Application

namespace Dialogue

open Application

variable {app : Application} {greeting : Bytes} {d : Dialogue} {events mid : List Event}

/-- Nothing is heard before the connection is up or when it is down. -/
theorem Orderly.shape (h : d.Orderly) (hstate : d.state ≠ .connecting) :
    ∃ mid, d.events.takeWhile (· ≠ .connection false) = .connection true :: mid ∧
      mid.all isTraffic = true ∧ heard d.events = heard mid := by
  have hnotMem : ∀ {mid : List Event}, mid.all isTraffic = true → .connection false ∉ mid := by
    intro mid hmid hmem
    exact absurd (List.all_eq_true.mp hmid _ hmem) (by simp [isTraffic])
  by_cases hdown : d.state = .disconnected
  · obtain ⟨-, mid, late, hevents, hmid, hlate⟩ := h.down hdown
    have hnone : heard late = [] := by
      apply List.flatMap_eq_nil_iff.mpr
      intro e he
      rw [of_decide_eq_true (List.all_eq_true.mp hlate e he)]
      rfl
    have hbefore : .connection false ∉ .connection true :: mid := by simp [hnotMem hmid]
    refine ⟨mid, ?_, hmid, ?_⟩
    · rw [hevents, takeWhile_ne_append_of_notMem hbefore, List.takeWhile_cons_of_neg (by simp),
        List.append_nil]
    · rw [hevents, heard_append, heard_cons, heard_cons, hnone, List.append_nil]
      exact List.append_nil (heard mid)
  · obtain ⟨mid, hevents, hmid⟩ := h.up (isUp_iff.mpr ⟨hstate, hdown⟩)
    refine ⟨mid, ?_, hmid, ?_⟩
    · rw [hevents, takeWhile_ne_of_notMem (by simp [hnotMem hmid])]
    · rw [hevents, heard_cons]
      rfl

/-- What it has to deliver is the greeting and what it has heard. -/
theorem Orderly.delivered_of_echoes (h : d.Orderly) (happ : app.Echoes greeting)
    (hstate : d.state ≠ .connecting) :
    delivered (app.spoken d.events) = greeting ++ heard d.events := by
  obtain ⟨mid, hshape, hmid, hheard⟩ := h.shape hstate
  rw [spoken, hshape, delivered_of_stays happ.stays_flatMap, List.flatMap_cons, List.flatMap_append,
    happ.bytes_traffic hmid, hheard]
  congr 1
  exact happ.greets

end Dialogue
end Bbkgl
