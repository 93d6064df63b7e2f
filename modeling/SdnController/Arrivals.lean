import SdnController.Network
import SdnController.Framing
import SdnController.Isolation
import SdnController.Lib.Frames
import Mathlib.Data.List.TakeWhile

/-!
# What arrives is read in order

TCP hands over a stream of bytes, in pieces of its own, and the controller reads it one call of
`recvData` after the other, with other switches between them. Nothing is lost in between, read
twice, or read before what arrived earlier (`reads_in_order`): the calls cut the stream at the
lengths in its headers, which no piece can change, since a call waits until what it is to take is
there.

So the answers to a switch do not depend on any of this. Whatever the order of events was, what it
was sent is what its own machine makes of the first of the messages that have arrived on its
connection, and what is still to be read are the others (`arrivals_answered`).

The invariant of both is that what was taken from a connection, and what waits to be read on it, are
together what has arrived (`TakenInOrder`), with the calls of the loop as a run of the controller
(`Tracks`).
-/

namespace SdnController

open Memory Exec Frames

/-! ## What arrives -/

/-- The peer of a connection closes it. -/
def NetInput.closes (fd : ℕ) : NetInput → Bool
  | .close fd' => fd' = fd
  | _ => false

/-- The bytes that arrive on a connection. -/
def NetInput.bytesOn (fd : ℕ) : NetInput → List UInt8
  | .arrive fd' bytes => if fd' = fd then bytes else []
  | _ => []

/-- All bytes that arrive on a connection, before its peer closes it. -/
def arrivedOn (fd : ℕ) (inputs : List NetInput) : List UInt8 :=
  (inputs.takeWhile (!·.closes fd)).flatMap (·.bytesOn fd)

/-- The peer of a connection has closed it. -/
def closedBy (fd : ℕ) (inputs : List NetInput) : Prop := ∃ i ∈ inputs, i.closes fd = true

instance (fd : ℕ) (inputs : List NetInput) : Decidable (closedBy fd inputs) :=
  inferInstanceAs (Decidable (∃ i ∈ inputs, i.closes fd = true))

/-- What a call of `recvData` takes from its socket. -/
def Input.taken (i : Input) : List UInt8 := i.stream.take (callSize i.stream)

/-- What the calls on a socket take from it, in order. -/
def readOn (s : Socket) (is : List Input) : List (List UInt8) :=
  (is.filter (·.socket = s)).map Input.taken

section Arrive

variable {fd : ℕ} {past : List NetInput} {i : NetInput}

theorem arrivedOn_concat_open (h : ¬closedBy fd past) :
    arrivedOn fd (past ++ [i]) = arrivedOn fd past ++ i.bytesOn fd := by
  have hopen : ∀ j ∈ past, (!j.closes fd) = true := by
    intro j hj
    rw [Bool.not_eq_true', Bool.eq_false_iff]
    exact fun hc => h ⟨j, hj, hc⟩
  unfold arrivedOn
  rw [List.takeWhile_append_of_pos hopen, List.takeWhile_eq_self_iff.mpr hopen,
    List.flatMap_append]
  congr 1
  cases i with
  | close fd' => by_cases hfd : fd' = fd <;> simp [NetInput.closes, NetInput.bytesOn, hfd]
  | _ => simp [NetInput.closes]

theorem arrivedOn_concat_closed (h : closedBy fd past) :
    arrivedOn fd (past ++ [i]) = arrivedOn fd past := by
  obtain ⟨j, hj, hc⟩ := h
  unfold arrivedOn
  rw [List.takeWhile_append, if_neg]
  intro hlength
  have hall := List.takeWhile_eq_self_iff.mp
    (List.IsPrefix.eq_of_length (List.takeWhile_prefix fun j : NetInput => !j.closes fd) hlength)
  exact absurd (hall j hj) (by simp [hc])

/-- Nothing arrives with another input. -/
theorem arrivedOn_concat_nil (h : i.bytesOn fd = []) :
    arrivedOn fd (past ++ [i]) = arrivedOn fd past := by
  by_cases hclosed : closedBy fd past
  · exact arrivedOn_concat_closed hclosed
  · rw [arrivedOn_concat_open hclosed, h, List.append_nil]

theorem closedBy_concat : closedBy fd (past ++ [i]) ↔ closedBy fd past ∨ i.closes fd = true := by
  unfold closedBy
  simp only [List.mem_append, List.mem_singleton, or_and_right, exists_or, exists_eq_left]

end Arrive

/-! ## What a call takes -/

section Call

variable {s : Socket} {e : Env} {st st' : State} {stream rest : List UInt8} {ret : ℤ}
  {w : List Event}

/-- What a call takes is not less than a header. -/
theorem le_callSize (stream : List UInt8) : 8 ≤ callSize stream := le_max_left _ _

theorem callSize_pos (stream : List UInt8) : 0 < callSize stream :=
  lt_of_lt_of_le (by decide) (le_callSize stream)

/-- What a call is to take is decided by the header. -/
theorem callSize_append (hlen : 8 ≤ stream.length) (rest : List UInt8) :
    callSize (stream ++ rest) = callSize stream := by
  unfold callSize
  rw [header_append hlen]

/-- What a call is to take says its own length, when it is there. -/
theorem taken_saysLength (h : callSize stream ≤ stream.length) :
    SaysLength callSize (stream.take (callSize stream)) := by
  have hlength : (stream.take (callSize stream)).length = callSize stream := by
    rw [List.length_take, min_eq_left h]
  have hleast : 8 ≤ (stream.take (callSize stream)).length := by
    rw [hlength]
    exact le_callSize stream
  constructor
  · exact List.ne_nil_of_length_pos (by omega)
  · intro rest
    calc callSize (stream.take (callSize stream) ++ rest)
        = callSize (stream.take (callSize stream)) := callSize_append hleast rest
      _ = callSize (stream.take (callSize stream) ++ stream.drop (callSize stream)) :=
          (callSize_append hleast _).symm
      _ = (stream.take (callSize stream)).length := by rw [List.take_append_drop, hlength]

/-- A call that returns leaves what it does not take. -/
theorem recvData_rest (hst : st.Sane)
    (h : recvData s stream e st = ⟨.ok (ret, rest), st', w⟩) :
    rest = stream.drop (callSize stream) := by
  have hy := recvData_answers s e stream hst
  rw [h] at hy
  rw [(Prod.mk.inj hy.1).2, List.drop_drop]
  by_cases hlen : 8 ≤ stream.length
  · rw [payloadAsked_eq hlen]
    congr 1
    unfold callSize
    rw [ofpHdrLen]
    omega
  · -- There is not even a header.
    have hleast := le_callSize stream
    rw [List.drop_eq_nil_of_le (by rw [ofpHdrLen]; omega), List.drop_eq_nil_of_le (by omega)]

/-- A call returns only if its calls of `recv` do not fail. -/
theorem recvData_recv_works (h : recvData s stream e st = ⟨.ok (ret, rest), st', w⟩) :
    e.recvFails .packet = false ∧
      (8 ≤ stream.length → e.recvFails .payload = true → callSize stream = 8) := by
  unfold recvData at h
  by_cases hf : e.recvFails .packet = true
  · rw [bind_apply, recv_fails s e hf] at h
    cases congrArg Outcome.ret h
  rw [Bool.not_eq_true] at hf
  refine ⟨hf, fun hlen hfp => ?_⟩
  by_contra hsize
  have hpos : 0 < ((header stream).length.toNat : ℤ) - 8 := by
    unfold callSize at hsize
    rw [ofpHdrLen] at hsize
    omega
  rw [bind_apply, recv_header s st hf hlen, Outcome.andThen_ok, prog_ite_apply,
    if_neg (show ¬(8 : ℤ) ≤ 0 by decide), bind_apply] at h
  simp only [ntohs_headerMem] at h
  rw [recvPayload_fails s e hpos hfp] at h
  cases congrArg Outcome.ret h

/-- A call that returns had all that it was to take, unless its peer had closed the connection. -/
theorem Network.Complete.whole {n : Network} {fd : ℕ} (hc : n.Complete fd e)
    (hopen : fd ∉ n.closed)
    (h : recvData s (n.inbox fd) e st = ⟨.ok (ret, rest), st', w⟩) :
    callSize (n.inbox fd) ≤ (n.inbox fd).length := by
  obtain ⟨hpacket, hpayload⟩ := recvData_recv_works h
  rcases hc with hclosed | hwhole | hf | ⟨hlen, hf⟩
  · exact absurd hclosed hopen
  · exact hwhole
  · exact absurd hf (by simp [hpacket])
  · exact (hpayload hlen hf).trans_le hlen

end Call

/-! ## What has been read -/

/-- The calls on a connection have taken, of what arrived on it, one message after the other. On an
open connection these were there whole. Once its peer has closed it, a call takes what is left when
that is no whole message, and the calls after it take nothing. -/
structure TakenInOrder (arrived : List UInt8) (read : List (List UInt8)) (inbox : List UInt8)
    (closed : Prop) : Prop where
  flatten_eq : read.flatten ++ inbox = arrived
  pieces : ∃ ms ends, read = ms ++ ends ∧ (∀ b ∈ ms, SaysLength callSize b) ∧
    (ends = [] ∨ closed ∧ inbox = [] ∧ ∃ left k, ends = left :: List.replicate k [] ∧
      left.length < callSize left)

section Order

variable {arrived inbox bytes : List UInt8} {read : List (List UInt8)} {closed : Prop}

theorem takenInOrder_initial : TakenInOrder [] [] [] closed :=
  ⟨rfl, [], [], rfl, by simp, .inl rfl⟩

/-- Bytes arrive. -/
theorem TakenInOrder.arrive (h : TakenInOrder arrived read inbox closed) (hopen : ¬closed) :
    TakenInOrder (arrived ++ bytes) read (inbox ++ bytes) closed := by
  obtain ⟨rfl, ms, ends, hread, hms, hends | ⟨hclosed, -⟩⟩ := h
  · exact ⟨(List.append_assoc ..).symm, ms, ends, hread, hms, .inl hends⟩
  · exact absurd hclosed hopen

/-- The peer closes the connection. -/
theorem TakenInOrder.close (h : TakenInOrder arrived read inbox closed) :
    TakenInOrder arrived read inbox True := by
  obtain ⟨heq, ms, ends, hread, hms, hends⟩ := h
  exact ⟨heq, ms, ends, hread, hms, hends.imp_right fun hends => ⟨trivial, hends.2⟩⟩

/-- A call takes what it is to take, or what is left on a connection that was closed. -/
theorem TakenInOrder.call (h : TakenInOrder arrived read inbox closed)
    (hwhole : ¬closed → callSize inbox ≤ inbox.length) :
    TakenInOrder arrived (read ++ [inbox.take (callSize inbox)]) (inbox.drop (callSize inbox))
      closed := by
  obtain ⟨rfl, ms, ends, rfl, hms, hends⟩ := h
  refine ⟨by simp, ?_⟩
  rcases hends with rfl | ⟨hclosed, rfl, left, k, rfl, hleft⟩
  · by_cases hle : callSize inbox ≤ inbox.length
    · refine ⟨ms ++ [inbox.take (callSize inbox)], [], by simp, ?_, .inl rfl⟩
      intro b hb
      rcases List.mem_append.mp hb with hb | hb
      · exact hms b hb
      · rw [List.mem_singleton.mp hb]
        exact taken_saysLength hle
    · -- The connection was closed in the middle of a message, or after the last one.
      have hclosed : closed := not_not.mp (mt hwhole hle)
      rw [List.take_of_length_le (by omega), List.drop_eq_nil_of_le (by omega)]
      exact ⟨ms, [inbox], by simp, hms, .inr ⟨hclosed, rfl, inbox, 0, rfl, not_le.mp hle⟩⟩
  · refine ⟨ms, left :: List.replicate (k + 1) [], ?_, hms, .inr ⟨hclosed, by simp, left, k + 1,
      rfl, hleft⟩⟩
    simp [List.replicate_succ']

/-- On an open connection, what has been read are the first of the whole messages that have
arrived. -/
theorem TakenInOrder.open_eq (h : TakenInOrder arrived read inbox closed) (hopen : ¬closed) :
    read ++ wholes callSize inbox = wholes callSize arrived := by
  obtain ⟨rfl, ms, ends, rfl, hms, rfl | ⟨hclosed, -⟩⟩ := h
  · rw [List.append_nil, wholes_flatten_append hms]
  · exact absurd hclosed hopen

/-- What has been read are the first of the whole messages that have arrived, what came after them,
and the end of the connection. -/
theorem TakenInOrder.prefix_ends (h : TakenInOrder arrived read inbox closed) :
    ∃ left k, (wholes callSize arrived).flatten ++ left = arrived ∧
      read <+: wholes callSize arrived ++ left :: List.replicate k [] := by
  obtain ⟨rfl, ms, ends, rfl, hms, rfl | ⟨-, rfl, left, k, rfl, hleft⟩⟩ := h
  · obtain ⟨left, hleft, -⟩ := wholes_flatten callSize_pos ((ms ++ []).flatten ++ inbox)
    refine ⟨left, 0, hleft, ?_⟩
    rw [List.append_nil, wholes_flatten_append hms, List.append_assoc]
    exact List.prefix_append _ _
  · have harrived : (ms ++ left :: List.replicate k []).flatten ++ [] = ms.flatten ++ left := by
      simp
    rw [harrived, wholes_flatten_append hms, wholes_eq_nil hleft, List.append_nil]
    exact ⟨left, k, rfl, List.prefix_rfl⟩

end Order

/-! ## Runs -/

/-- A call of `recvData` in the trace of the loop. -/
theorem filterMap_inner_call (w : List Event) (fd : ℕ) (ret : ℤ) :
    (w.map LoopEvent.within ++ [LoopEvent.returned fd ret]).filterMap LoopEvent.inner = w := by
  rw [List.filterMap_append, List.filterMap_map]
  simp [LoopEvent.inner, Function.comp_def]

section Run

variable {sd fd : ℕ} {opened : Finset ℕ} {inputs past : List NetInput} {n : Network}
  {w : List LoopEvent} {is : List Input} {i : NetInput}

theorem readOn_concat (s : Socket) (is : List Input) (i : Input) :
    readOn s (is ++ [i]) = readOn s is ++ if i.socket = s then [i.taken] else [] := by
  unfold readOn
  rw [List.filter_append, List.map_append]
  split_ifs with h <;> simp [h]

/-- What the controller has read of what has arrived. -/
structure Tracks (inputs : List NetInput) (n : Network) (w : List LoopEvent) (is : List Input) :
    Prop where
  runs : run step is initial = ⟨.ok (), n.loop.tables, w.filterMap LoopEvent.inner⟩
  closed : ∀ fd, fd ∈ n.closed ↔ closedBy fd inputs
  taken : ∀ fd : ℕ, TakenInOrder (arrivedOn fd inputs) (readOn fd is) (n.inbox fd) (fd ∈ n.closed)

theorem tracks_initial (sd : ℕ) (opened : Finset ℕ) :
    Tracks [] (Network.initial sd opened) [] [] := by
  refine ⟨rfl, fun fd => ?_, fun fd => takenInOrder_initial⟩
  exact iff_of_false (Finset.notMem_empty fd) (by simp [closedBy])

/-- Nothing arrives, no peer closes its connection, and there is no call of `recvData`. -/
theorem Tracks.keep {n' : Network} {w' : List LoopEvent} (h : Tracks past n w is)
    (harrived : ∀ fd, arrivedOn fd (past ++ [i]) = arrivedOn fd past)
    (hcloses : ∀ fd, i.closes fd = false)
    (htables : n'.loop.tables = n.loop.tables) (hclosed : n'.closed = n.closed)
    (hinbox : n'.inbox = n.inbox) (hw : w'.filterMap LoopEvent.inner = []) :
    Tracks (past ++ [i]) n' (w ++ w') is := by
  constructor
  · rw [htables, List.filterMap_append, hw, List.append_nil]
    exact h.runs
  · intro fd
    rw [hclosed, closedBy_concat, hcloses fd, h.closed fd]
    simp
  · intro fd
    rw [harrived fd, hinbox, hclosed]
    exact h.taken fd

/-- Bytes arrive, on an open connection. -/
theorem Tracks.arrive (h : Tracks past n w is) {bytes : List UInt8} (hfd : fd ∉ n.closed) :
    Tracks (past ++ [.arrive fd bytes])
      { n with inbox := Function.update n.inbox fd (n.inbox fd ++ bytes) } w is := by
  refine ⟨h.runs, fun fd' => ?_, fun fd' => ?_⟩
  · rw [closedBy_concat]
    simp [NetInput.closes, h.closed fd']
  show TakenInOrder _ _ (Function.update n.inbox fd (n.inbox fd ++ bytes) fd') _
  by_cases heq : fd' = fd
  · subst heq
    rw [Function.update_self, arrivedOn_concat_open (mt (h.closed fd').mpr hfd)]
    simpa [NetInput.bytesOn] using (h.taken fd').arrive hfd
  · rw [Function.update_of_ne heq, arrivedOn_concat_nil (by simp [NetInput.bytesOn, Ne.symm heq])]
    exact h.taken fd'

/-- A peer closes its connection. -/
theorem Tracks.close (h : Tracks past n w is) :
    Tracks (past ++ [.close fd]) { n with closed := insert fd n.closed } w is := by
  refine ⟨h.runs, fun fd' => ?_, fun fd' => ?_⟩
  · rw [closedBy_concat, Finset.mem_insert, h.closed fd', or_comm]
    simp [NetInput.closes, eq_comm]
  rw [arrivedOn_concat_nil rfl]
  by_cases heq : fd' = fd
  · rw [heq, eq_true (Finset.mem_insert_self fd n.closed)]
    exact (h.taken fd).close
  · rw [Finset.mem_insert, or_iff_right heq]
    exact h.taken fd'

/-- A call of `recvData` takes the next message from its connection. -/
theorem Tracks.call (h : Tracks past n w is) {e : Env} {fails : Bool} {ret : ℤ} {st : State}
    {rest : List UInt8} {wc : List Event} (hc : n.Complete fd e)
    (hcall : recvData fd (n.inbox fd) e n.loop.tables = ⟨.ok (ret, rest), st, wc⟩) :
    Tracks (past ++ [.turn e fails])
      { n with loop := n.loop.afterCall fd st, inbox := Function.update n.inbox fd rest }
      (w ++ (wc.map .within ++ [.returned fd ret])) (is ++ [⟨fd, n.inbox fd, e⟩]) := by
  constructor
  · rw [List.filterMap_append, filterMap_inner_call]
    exact run_concat_ok h.runs hcall
  · intro fd'
    rw [closedBy_concat]
    simp [NetInput.closes, h.closed fd']
  · intro fd'
    rw [arrivedOn_concat_nil rfl, readOn_concat]
    show TakenInOrder _ _ (Function.update n.inbox fd rest fd') _
    by_cases heq : fd' = fd
    · subst heq
      rw [Function.update_self, if_pos rfl, recvData_rest (run_sane h.runs) hcall]
      exact (h.taken fd').call fun hopen => hc.whole hopen hcall
    · rw [Function.update_of_ne heq, if_neg (by simp [Ne.symm heq]), List.append_nil]
      exact h.taken fd'

/-- What happens next leaves nothing unread, and nothing read twice. -/
theorem Tracks.step {i : NetInput} {n' : Network} {w' : List LoopEvent} (h : Tracks past n w is)
    (hi : netStep sd i n = ⟨.ok (), n', w'⟩) : ∃ is', Tracks (past ++ [i]) n' (w ++ w') is' := by
  cases i with
  | connect =>
    obtain ⟨-, rfl, rfl⟩ := Outcome.mk.injEq .. ▸ hi
    exact ⟨is, h.keep (fun _ => arrivedOn_concat_nil rfl) (fun _ => rfl) rfl rfl rfl rfl⟩
  | arrive fd bytes =>
    by_cases hfd : fd ∈ n.closed
    · rw [netStep_arrive_closed sd bytes hfd] at hi
      obtain ⟨-, rfl, rfl⟩ := Outcome.mk.injEq .. ▸ hi
      refine ⟨is, h.keep (fun fd' => ?_) (fun _ => rfl) rfl rfl rfl rfl⟩
      by_cases heq : fd = fd'
      · exact arrivedOn_concat_closed ((h.closed fd').mp (heq ▸ hfd))
      · exact arrivedOn_concat_nil (if_neg heq)
    · rw [netStep_arrive sd bytes hfd] at hi
      obtain ⟨-, rfl, rfl⟩ := Outcome.mk.injEq .. ▸ hi
      rw [List.append_nil]
      exact ⟨is, h.arrive hfd⟩
  | close fd =>
    obtain ⟨-, rfl, rfl⟩ := Outcome.mk.injEq .. ▸ hi
    rw [List.append_nil]
    exact ⟨is, h.close⟩
  | turn e fails =>
    cases netStep_turn hi with
    | call _ _ hc hcall => exact ⟨_, h.call hc hcall⟩
    | _ => exact ⟨is, h.keep (fun _ => arrivedOn_concat_nil rfl) (fun _ => rfl) rfl rfl rfl rfl⟩

/-- In every reachable state. -/
theorem run_tracks (h : run (netStep sd) inputs (Network.initial sd opened) = ⟨.ok (), n, w⟩) :
    ∃ is, Tracks inputs n w is := by
  refine run_induction (fun past n w => ∃ is, Tracks past n w is)
    ⟨[], tracks_initial sd opened⟩ ?_ h
  rintro past i n₁ w₁ ⟨⟩ n₂ w₂ - - hi ⟨is, his⟩
  exact his.step hi

/-- The calls of `recvData` that the loop makes take, on every connection, what arrived on it, byte
by byte and in order, and leave the rest to be read. On an open connection each takes one message,
as the lengths in the headers cut the whole of what has arrived; on one that was closed they go on
with what is left after the last whole message, and then with nothing, for ever. -/
theorem reads_in_order
    (h : run (netStep sd) inputs (Network.initial sd opened) = ⟨.ok (), n, w⟩) :
    ∃ is, run step is initial = ⟨.ok (), n.loop.tables, w.filterMap LoopEvent.inner⟩ ∧
      ∀ fd : ℕ, (readOn fd is).flatten ++ n.inbox fd = arrivedOn fd inputs ∧
        (¬closedBy fd inputs →
          readOn fd is ++ wholes callSize (n.inbox fd) = wholes callSize (arrivedOn fd inputs)) ∧
        ∃ left k, (wholes callSize (arrivedOn fd inputs)).flatten ++ left = arrivedOn fd inputs ∧
          readOn fd is <+: wholes callSize (arrivedOn fd inputs) ++
            left :: List.replicate k [] := by
  obtain ⟨is, hruns, hclosed, htaken⟩ := run_tracks h
  refine ⟨is, hruns, fun fd => ?_⟩
  have hfd := htaken fd
  exact ⟨hfd.flatten_eq, fun hopen => hfd.open_eq (mt (hclosed fd).mp hopen), hfd.prefix_ends⟩

end Run

/-- A switch connects and is accepted. Its ARP request arrives in two pieces, the second with the
reply, and the loop waits in between. -/
def piecemeal : List NetInput :=
  let bytes := (request 4).stream ++ (reply 4).stream
  .connect :: List.replicate 7 .plainTurn ++ .arrive 4 (bytes.take 20) ::
    List.replicate 7 .plainTurn ++ .arrive 4 (bytes.drop 20) :: List.replicate 9 .plainTurn

/-- The pieces are read as the two messages. -/
theorem reads_in_order_piecemeal : ∃ is, (run step is initial).ret.isOk = true ∧
    readOn 4 is = (conversation 4).map Input.stream := by
  have h := run_of_isOk (netStep 3) piecemeal (Network.initial 3 {0, 1, 2}) (by decide +kernel)
  obtain ⟨is, hrun, hfd⟩ := reads_in_order h
  have hread := (hfd 4).2.1 (by decide +kernel)
  have hleft : (run (netStep 3) piecemeal (Network.initial 3 {0, 1, 2})).st.inbox 4 = [] := by
    decide +kernel
  have hwholes : wholes callSize (arrivedOn 4 piecemeal) = (conversation 4).map Input.stream := by
    decide +kernel
  rw [hleft, hwholes] at hread
  refine ⟨is, by rw [hrun]; rfl, ?_⟩
  simpa [wholes, wholesFuel] using hread

/-! ## What is sent is an answer to what has arrived -/

section Answered

variable {sd fd : ℕ} {opened : Finset ℕ} {inputs : List NetInput} {n : Network}
  {w : List LoopEvent} {is : List Input}

/-- What a call takes is the message that it acts on, when that is whole. -/
theorem Whole.of_taken {s : Socket} {i : Input} (h : Whole (Input.plain s i.taken)) :
    Whole i ∧ firstMessage i.stream = i.taken := by
  obtain ⟨hwf, htotal⟩ := h
  have hlong : 8 ≤ i.taken.length := hwf.least.trans hwf.whole
  have hheader : header i.taken = header i.stream := by
    rw [← header_append hlong (i.stream.drop (callSize i.stream)), Input.taken,
      List.take_append_drop]
  have hsize : callSize i.stream = (header i.stream).length.toNat := by
    rw [callSize, ← hheader]
    exact max_eq_right hwf.least
  have hfirst : firstMessage i.stream = i.taken := by
    rw [Input.taken, hsize]
    rfl
  have hagain : firstMessage i.taken = firstMessage i.stream := by
    rw [firstMessage, hheader, ← hfirst, firstMessage, List.take_take, min_self]
  refine ⟨⟨?_, ?_⟩, hfirst⟩
  · have hwhole := hwf.whole
    have hleast := hwf.least
    have hpacketIn := hwf.packetIn
    simp only [Input.plain, hheader] at hwhole hleast hpacketIn
    refine ⟨hwhole.trans ?_, hleast, hpacketIn⟩
    exact (List.length_take_le' _ _)
  · intro p hp
    apply htotal p
    unfold Input.packetIn at hp ⊢
    rw [show (Input.plain s i.taken).stream = i.taken from rfl, hagain]
    exact hp

/-- The controller has answered an open connection with what the machine of one switch, shown the
messages that were read, answers; these are the first of the messages that have arrived on it, and
the others are still to be read. How the bytes arrive, in which pieces and when, what other switches
send, and how the loop's rounds fall in between, is nothing to it. -/
theorem arrivals_answered
    (h : run (netStep sd) inputs (Network.initial sd opened) = ⟨.ok (), n, w⟩)
    (hopen : ¬closedBy fd inputs)
    (hwhole : ∀ b ∈ wholes callSize (arrivedOn fd inputs), Whole (Input.plain fd b)) :
    ∃ read, read ++ wholes callSize (n.inbox fd) = wholes callSize (arrivedOn fd inputs) ∧
      mealy Switch.wire Switch.fresh (read.map fun b => Msg.ofMem (ofBytes b)) =
        (n.loop.tables.view fd,
          (sendsOn fd (w.filterMap LoopEvent.inner)).map maskXid) := by
  obtain ⟨is, hrun, hclosed, htaken⟩ := run_tracks h
  have hread := (htaken fd).open_eq (mt (hclosed fd).mp hopen)
  refine ⟨readOn fd is, hread, ?_⟩
  have hmessages : ∀ i ∈ is, i.socket = fd → Whole i ∧ firstMessage i.stream = i.taken := by
    intro i hi hs
    apply Whole.of_taken
    apply hwhole
    rw [← hread]
    exact List.mem_append_left _ (List.mem_map_of_mem (List.mem_filter.mpr ⟨hi, by simpa using hs⟩))
  have hreceived : received fd is = readOn fd is := by
    unfold received readOn
    apply List.map_congr_left
    intro i hi
    obtain ⟨hi, hs⟩ := List.mem_filter.mp hi
    exact (hmessages i hi (by simpa using hs)).2
  have hprojects := run_projects (run_wire_projects fd is) hrun
  rw [view_initial, filterMap_msgOn fun i hi hs => (hmessages i hi hs).1, hreceived,
    filterMap_wireOn] at hprojects
  exact hprojects.symm

end Answered

/-- The piecemeal conversation is answered like one that arrives at once. -/
theorem arrivals_answered_piecemeal :
    (sendsOn (4 : ℕ) ((run (netStep 3) piecemeal (Network.initial 3 {0, 1, 2})).events.filterMap
        LoopEvent.inner)).map maskXid =
      (mealy Switch.wire Switch.fresh
        ((conversation 4).map fun i => Msg.ofMem (ofBytes i.stream))).2 := by
  have h := run_of_isOk (netStep 3) piecemeal (Network.initial 3 {0, 1, 2}) (by decide +kernel)
  have hwhole : ∀ b ∈ wholes callSize (arrivedOn 4 piecemeal), Whole (Input.plain 4 b) := by
    decide +kernel
  obtain ⟨read, hread, hsent⟩ := arrivals_answered h (by decide +kernel) hwhole
  have hleft : wholes callSize
      ((run (netStep 3) piecemeal (Network.initial 3 {0, 1, 2})).st.inbox 4) = [] := by
    decide +kernel
  have hwholes : wholes callSize (arrivedOn 4 piecemeal) = (conversation 4).map Input.stream := by
    decide +kernel
  rw [hleft, List.append_nil, hwholes] at hread
  rw [hread, List.map_map] at hsent
  generalize run (netStep 3) piecemeal (Network.initial 3 {0, 1, 2}) = o at hsent ⊢
  exact (congrArg Prod.snd hsent).symm

end SdnController
