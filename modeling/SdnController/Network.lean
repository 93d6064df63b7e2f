import SdnController.Rounds

/-!
# The controller and its connections

The event loop together with what it waits for. The bytes of a switch arrive in pieces and stay in
the kernel until they are read (`Network.inbox`), a peer closes its connection, and connections wait
to be accepted; all of this happens between any two steps of the loop (`NetInput`). A turn of the
loop is a step of it, in which `select` finds ready what is readable, `accept` returns the lowest
descriptor that is not open, and `recv` is given what has arrived. The loop waits, and its turn does
nothing, as long as `select` finds nothing ready, and as long as a call of `recvData` is to receive
more than has arrived (`Network.Waits`): `recv` is called with `MSG_WAITALL`, on a header and then
on as many bytes as this says.

`netStep_turn` says all that a turn does. What the kernel does with the bytes that are sent is not
modelled: a send does not wait.
-/

namespace SdnController

open Memory Exec

/-- What a step of the loop is about to do. -/
inductive Turn where
  | select
  | accept
  /-- A call of `recvData`. -/
  | call (fd : ℕ)
  /-- An iteration of the `for` loop on a descriptor that is not ready, or its end. -/
  | pass
  deriving DecidableEq

/-- What the next step of the loop does. -/
def Loop.turn (sd : ℕ) (l : Loop) : Turn :=
  match l.i with
  | none => .select
  | some i => if i ≤ l.nfds ∧ i ∈ l.tSet then if i = sd then .accept else .call i else .pass

/-- The event loop, and what the kernel has for it. -/
structure Network where
  loop : Loop
  /-- The bytes of each connection that have arrived and were not read. -/
  inbox : ℕ → List UInt8
  /-- The connections that their peers have closed. -/
  closed : Finset ℕ
  /-- The number of connections that wait to be accepted. -/
  queue : ℕ

/-- The process before its first call of `select`. -/
def Network.initial (sd : ℕ) (opened : Finset ℕ) : Network :=
  ⟨Loop.initial sd opened, fun _ => [], ∅, 0⟩

/-- What happens next. -/
inductive NetInput where
  | connect
  | arrive (fd : ℕ) (bytes : List UInt8)
  | close (fd : ℕ)
  /-- A turn of the loop, in which `select` or `accept` may fail. -/
  | turn (env : Env) (fails : Bool)

/-- A turn of the loop that no failure disturbs. -/
def NetInput.plainTurn : NetInput := .turn Env.plain false

/-- It is the loop's turn. -/
def NetInput.isTurn : NetInput → Bool
  | .turn _ _ => true
  | _ => false

/-- The lowest descriptor that is not open, which is what `accept` returns. -/
def lowestFree (opened : Finset ℕ) : ℕ :=
  ((List.range (opened.card + 1)).find? (· ∉ opened)).getD 0

/-- The number of bytes that a call of `recvData` takes from a stream that starts like this. -/
def callSize (stream : List UInt8) : ℕ := max ofpHdrLen (header stream).length.toNat

namespace Network

/-- What `select` finds readable. -/
def Readable (sd : ℕ) (n : Network) (fd : ℕ) : Prop :=
  if fd = sd then 0 < n.queue else n.inbox fd ≠ [] ∨ fd ∈ n.closed

instance (sd : ℕ) (n : Network) (fd : ℕ) : Decidable (n.Readable sd fd) :=
  inferInstanceAs (Decidable (ite ..))

/-- What `select` finds ready. -/
def ready (sd : ℕ) (n : Network) : Finset ℕ := n.loop.set.filter (n.Readable sd)

/-- A call of `recvData` has all that it receives, or its peer sends nothing more, or one of its
calls of `recv` fails. -/
def Complete (n : Network) (fd : ℕ) (e : Env) : Prop :=
  fd ∈ n.closed ∨ callSize (n.inbox fd) ≤ (n.inbox fd).length ∨ e.recvFails .packet = true ∨
    ofpHdrLen ≤ (n.inbox fd).length ∧ e.recvFails .payload = true

instance (n : Network) (fd : ℕ) (e : Env) : Decidable (n.Complete fd e) :=
  inferInstanceAs (Decidable (_ ∨ _))

/-- The loop waits in its turn. -/
def Waits (sd : ℕ) (n : Network) (e : Env) (fails : Bool) : Prop :=
  match n.loop.turn sd with
  | .select => fails = false ∧ n.ready sd = ∅
  | .accept => fails = false ∧ n.queue = 0
  | .call fd => ¬n.Complete fd e
  | .pass => False

instance (sd : ℕ) (n : Network) (e : Env) (fails : Bool) : Decidable (n.Waits sd e fails) := by
  unfold Waits
  exact match n.loop.turn sd with
    | .select | .accept => inferInstanceAs (Decidable (_ ∧ _))
    | .call _ => inferInstanceAs (Decidable (¬_))
    | .pass => instDecidableFalse

/-- What the turn does not decide. -/
def choice (sd : ℕ) (n : Network) (e : Env) (fails : Bool) : Choice where
  ready := if fails then none else some (n.ready sd)
  accepted := if fails then none else some (lowestFree n.loop.opened)
  stream := n.loop.i.elim [] n.inbox
  env := e

/-- What a call of `recvData` leaves of the bytes that have arrived. -/
def restOf (n : Network) (fd : ℕ) (e : Env) : List UInt8 :=
  match (recvData fd (n.inbox fd) e n.loop.tables).ret with
  | .ok (_, rest) => rest
  | .error _ => []

/-- What a turn leaves, with the loop as its step has left it. -/
def afterTurn (sd : ℕ) (n : Network) (e : Env) (l : Loop) : Network :=
  match n.loop.turn sd with
  | .call fd => { n with loop := l, inbox := Function.update n.inbox fd (n.restOf fd e) }
  | .accept => { n with loop := l, queue := n.queue - 1 }
  | .select | .pass => { n with loop := l }

end Network

/-- What happens next, in the network. Nothing arrives on a connection that was closed. -/
def netStep (sd : ℕ) : NetInput → Network → Outcome Stop Network LoopEvent Unit
  | .connect, n => ⟨.ok (), { n with queue := n.queue + 1 }, []⟩
  | .arrive fd bytes, n =>
    if fd ∈ n.closed then ⟨.ok (), n, []⟩
    else ⟨.ok (), { n with inbox := Function.update n.inbox fd (n.inbox fd ++ bytes) }, []⟩
  | .close fd, n => ⟨.ok (), { n with closed := insert fd n.closed }, []⟩
  | .turn e fails, n =>
    if n.Waits sd e fails then ⟨.ok (), n, []⟩
    else
      let o := loopStep sd (n.choice sd e fails) n.loop
      ⟨o.ret, n.afterTurn sd e o.st, o.events⟩

/-! ## What a turn does -/

/-- A turn that completes: the network and the events that it leaves. -/
inductive TurnRule (sd : ℕ) (e : Env) (fails : Bool) (n : Network) :
    Network → List LoopEvent → Prop
  | wait (hw : n.Waits sd e fails) : TurnRule sd e fails n n []
  | select (hi : n.loop.i = none) (hr : n.ready sd ≠ ∅) :
    TurnRule sd e fails n { n with loop := { n.loop with tSet := n.ready sd, i := some 0 } }
      [.select]
  | roundEnd {i : ℕ} (hi : n.loop.i = some i) (hn : n.loop.nfds < i) :
    TurnRule sd e fails n { n with loop := { n.loop with i := none } } []
  | skip {i : ℕ} (hi : n.loop.i = some i) (hn : i ≤ n.loop.nfds) (ht : i ∉ n.loop.tSet) :
    TurnRule sd e fails n { n with loop := { n.loop with i := some (i + 1) } } []
  | accept (hat : n.loop.At sd) (hq : 0 < n.queue) (hroom : lowestFree n.loop.opened < fdSetsize) :
    TurnRule sd e fails n
      { n with
        loop := n.loop.afterAccept sd (lowestFree n.loop.opened), queue := n.queue - 1 }
      [.accept (lowestFree n.loop.opened)]
  | call {fd : ℕ} {ret : ℤ} {rest : List UInt8} {st : State} {w : List Event}
    (hat : n.loop.At fd) (hsd : fd ≠ sd) (hc : n.Complete fd e)
    (hcall : recvData fd (n.inbox fd) e n.loop.tables = ⟨.ok (ret, rest), st, w⟩) :
    TurnRule sd e fails n
      { n with loop := n.loop.afterCall fd st, inbox := Function.update n.inbox fd rest }
      (w.map .within ++ [.returned fd ret])

section Turn

variable {sd fd : ℕ} {l l' : Loop} {n n' : Network} {e : Env} {fails : Bool} {w : List LoopEvent}

/-- What is ready is watched. -/
theorem Network.ready_subset (sd : ℕ) (n : Network) : n.ready sd ⊆ n.loop.set :=
  Finset.filter_subset _ _

/-- The loop is at `select` outside the `for` loop. -/
theorem turn_select (h : l.i = none) : l.turn sd = .select := by
  unfold Loop.turn
  rw [h]

/-- The loop is at the server's socket. -/
theorem turn_accept (h : l.At sd) : l.turn sd = .accept := by
  obtain ⟨hi, hn, ht⟩ := h
  unfold Loop.turn
  simp only [hi, hn, ht, and_self, if_true]

/-- The loop is at another socket that is ready. -/
theorem turn_call (h : l.At fd) (hsd : fd ≠ sd) : l.turn sd = .call fd := by
  obtain ⟨hi, hn, ht⟩ := h
  unfold Loop.turn
  simp only [hi, hn, ht, and_self, if_true, if_neg hsd]

/-- The loop is at a descriptor that is not ready, or past the last one. -/
theorem turn_pass {i : ℕ} (hi : l.i = some i) (h : ¬(i ≤ l.nfds ∧ i ∈ l.tSet)) :
    l.turn sd = .pass := by
  unfold Loop.turn
  simp only [hi, if_neg h]

/-- Bytes that arrive on an open connection wait to be read. -/
theorem netStep_arrive (sd : ℕ) {fd : ℕ} (bytes : List UInt8) (hfd : fd ∉ n.closed) :
    netStep sd (.arrive fd bytes) n =
      ⟨.ok (), { n with inbox := Function.update n.inbox fd (n.inbox fd ++ bytes) }, []⟩ :=
  if_neg hfd

/-- Nothing arrives on a connection that was closed. -/
theorem netStep_arrive_closed (sd : ℕ) {fd : ℕ} (bytes : List UInt8) (hfd : fd ∈ n.closed) :
    netStep sd (.arrive fd bytes) n = ⟨.ok (), n, []⟩ :=
  if_pos hfd

/-- A turn in which the loop waits does nothing. -/
theorem netStep_wait (hw : n.Waits sd e fails) :
    netStep sd (.turn e fails) n = ⟨.ok (), n, []⟩ :=
  if_pos hw

/-- A turn in which the loop does not wait is a step of the loop. -/
theorem netStep_turn_step (hw : ¬n.Waits sd e fails)
    (h : netStep sd (.turn e fails) n = ⟨.ok (), n', w⟩) :
    loopStep sd (n.choice sd e fails) n.loop = ⟨.ok (), n'.loop, w⟩ ∧
      n' = n.afterTurn sd e n'.loop := by
  simp only [netStep, if_neg hw] at h
  obtain ⟨hret, rfl, rfl⟩ := Outcome.mk.injEq .. ▸ h
  have hloop : (n.afterTurn sd e (loopStep sd (n.choice sd e fails) n.loop).st).loop =
      (loopStep sd (n.choice sd e fails) n.loop).st := by
    unfold Network.afterTurn
    split <;> rfl
  rw [hloop, ← hret]
  exact ⟨rfl, rfl⟩

/-- All that a turn which completes does. -/
theorem netStep_turn (h : netStep sd (.turn e fails) n = ⟨.ok (), n', w⟩) :
    TurnRule sd e fails n n' w := by
  by_cases hw : n.Waits sd e fails
  · rw [netStep_wait hw] at h
    obtain ⟨-, rfl, rfl⟩ := Outcome.mk.injEq .. ▸ h
    exact .wait hw
  obtain ⟨hstep, hafter⟩ := netStep_turn_step hw h
  have hrule := loopStep_ok hstep
  generalize n'.loop = l at hrule hafter
  subst hafter
  unfold Network.Waits at hw
  unfold Network.afterTurn
  cases hrule with
  | @select ready hi hr =>
    have ht : n.loop.turn sd = .select := turn_select hi
    simp only [ht] at hw ⊢
    cases fails with
    | true => exact absurd hr nofun
    | false =>
      obtain rfl := Option.some.inj hr
      rw [Finset.inter_eq_right.mpr (n.ready_subset sd)]
      exact .select hi fun hr => hw ⟨rfl, hr⟩
  | roundEnd hi hn =>
    have ht : n.loop.turn sd = .pass := turn_pass hi fun h => not_le.mpr hn h.1
    simp only [ht]
    exact .roundEnd hi hn
  | skip hi hn hout =>
    have ht : n.loop.turn sd = .pass := turn_pass hi fun h => hout h.2
    simp only [ht]
    exact .skip hi hn hout
  | @accept fd hat ha hroom =>
    have ht := turn_accept hat
    simp only [ht] at hw ⊢
    cases fails with
    | true => exact absurd ha nofun
    | false =>
      obtain rfl := Option.some.inj ha
      exact .accept hat (Nat.pos_of_ne_zero fun hq => hw ⟨rfl, hq⟩) hroom
  | @call fd ret rest st wc hat hsd hcall =>
    have ht := turn_call hat hsd
    have hstream : (n.choice sd e fails).stream = n.inbox fd := by
      unfold Network.choice
      rw [hat.1]
      rfl
    rw [hstream] at hcall
    simp only [ht] at hw ⊢
    have hrest : n.restOf fd e = rest := by
      unfold Network.restOf
      rw [show recvData fd (n.inbox fd) e n.loop.tables = _ from hcall]
    rw [hrest]
    exact .call hat hsd (not_not.mp hw) hcall

/-- The loop stays as it is when it is not its turn. -/
theorem netStep_idle {i : NetInput} (hturn : i.isTurn = false)
    (h : netStep sd i n = ⟨.ok (), n', w⟩) : n'.loop = n.loop ∧ w = [] := by
  cases i with
  | turn => exact absurd hturn nofun
  | arrive fd bytes =>
    by_cases hfd : fd ∈ n.closed
    · rw [netStep_arrive_closed sd bytes hfd] at h
      obtain ⟨-, rfl, rfl⟩ := Outcome.mk.injEq .. ▸ h
      exact ⟨rfl, rfl⟩
    · rw [netStep_arrive sd bytes hfd] at h
      obtain ⟨-, rfl, rfl⟩ := Outcome.mk.injEq .. ▸ h
      exact ⟨rfl, rfl⟩
  | _ =>
    obtain ⟨-, rfl, rfl⟩ := Outcome.mk.injEq .. ▸ h
    exact ⟨rfl, rfl⟩

/-- Whatever happens next, the loop takes a step or stays as it is. -/
theorem netStep_loop {i : NetInput} (h : netStep sd i n = ⟨.ok (), n', w⟩) :
    (n'.loop = n.loop ∧ w = []) ∨
      ∃ choice, loopStep sd choice n.loop = ⟨.ok (), n'.loop, w⟩ := by
  cases i with
  | turn e fails =>
    by_cases hw : n.Waits sd e fails
    · rw [netStep_wait hw] at h
      obtain ⟨-, rfl, rfl⟩ := Outcome.mk.injEq .. ▸ h
      exact .inl ⟨rfl, rfl⟩
    · exact .inr ⟨_, (netStep_turn_step hw h).1⟩
  | _ => exact .inl (netStep_idle rfl h)

/-- The loop of a network runs as it does alone. -/
theorem net_run_loop {inputs : List NetInput} (h : run (netStep sd) inputs n = ⟨.ok (), n', w⟩) :
    ∃ cs, run (loopStep sd) cs n.loop = ⟨.ok (), n'.loop, w⟩ := by
  refine run_induction (fun _ n' w => ∃ cs, run (loopStep sd) cs n.loop = ⟨.ok (), n'.loop, w⟩)
    ⟨[], rfl⟩ ?_ h
  rintro past i n₁ w₁ ⟨⟩ n₂ w₂ - - hi ⟨cs, hcs⟩
  rcases netStep_loop hi with ⟨hloop, rfl⟩ | ⟨choice, hstep⟩
  · exact ⟨cs, by rw [hloop, List.append_nil]; exact hcs⟩
  · exact ⟨cs ++ [choice], run_concat_ok hcs hstep⟩

end Turn

end SdnController
