import SdnController.Received

/-!
# Runs of the controller

A run is any list of calls of `recvData`, on any sockets and in any order, from the state that
`handleConnections` starts its loop with. `step_ok` and `step_error` say all that a step does, and
every later result about runs is drawn from them: `run_sane` and `run_view` for what the tables
hold, the step lemmas themselves for what is sent, and `run_switch_induction` for what holds of the
two together, for one switch at a time.

A run is also seen through one socket (`run_wire_projects`): what the tables hold for the socket,
and what is sent on it but for the transaction ids, is what the machine of `LearningSwitch.lean`
makes of the messages on that socket alone.
-/

namespace SdnController

open Memory Exec KeyedLists

/-- The message that a call reads, when it is a call on the socket. -/
def Input.msgOn (s : Socket) (i : Input) : Option Msg := if i.socket = s then some i.msg else none

/-! ## Steps -/

section Step

variable {i : Input} {st st' : State} {a : ℤ × List UInt8} {w : List Event} {x : Stop}

/-- A step that completes leaves the state after its message, and sends the replies to it. -/
theorem step_ok (hst : st.Sane) (h : step i st = ⟨.ok a, st', w⟩) :
    st' = st.after i.socket i.msg ∧
      sends w = label i.socket st.xid ((st.view i.socket).react i.msg).2 := by
  have hy := recvData_answers i.socket i.env i.stream hst
  rw [show recvData i.socket i.stream i.env st = step i st from rfl, h] at hy
  exact ⟨hy.2.1, hy.2.2⟩

/-- A step that stops has sent the first of the replies to its message. -/
theorem step_error (hst : st.Sane) (h : step i st = ⟨.error x, st', w⟩) :
    sends w <+: label i.socket st.xid ((st.view i.socket).react i.msg).2 := by
  have hy := recvData_answers i.socket i.env i.stream hst
  rw [show recvData i.socket i.stream i.env st = step i st from rfl, h] at hy
  exact hy

/-- Whether it completes or stops, a step has sent the first of the replies to its message. -/
theorem step_sends (i : Input) (hst : st.Sane) :
    sends (step i st).events <+: label i.socket st.xid ((st.view i.socket).react i.msg).2 := by
  rcases h : step i st with ⟨ret, st', w⟩
  cases ret with
  | ok a => exact (step_ok hst h).2 ▸ List.prefix_rfl
  | error x => exact step_error hst h

/-- A step that completes had room for its message: a longer one overflows the payload. -/
theorem length_le_of_step_ok {frame : ℕ} (hwf : WellFormed frame i.stream)
    (h : step i st = ⟨.ok a, st', w⟩) : (header i.stream).length.toNat ≤ 1008 := by
  obtain ⟨s, stream, e⟩ := i
  have hwhole : (header stream).length.toNat ≤ stream.length := hwf.whole
  have hleast : 8 ≤ (header stream).length.toNat := hwf.least
  by_contra hlong
  have hlong : 1008 < (header stream).length.toNat := not_le.mp hlong
  unfold step recvData at h
  by_cases hf : e.recvFails .packet = true
  · rw [bind_apply, recv_fails s e hf] at h
    cases congrArg Outcome.ret h
  rw [Bool.not_eq_true] at hf
  rw [bind_apply, recv_header s st hf (show 8 ≤ stream.length by omega), Outcome.andThen_ok,
    prog_ite_apply, if_neg (show ¬(8 : ℤ) ≤ 0 by decide), bind_apply] at h
  simp only [ntohs_headerMem] at h
  have hpos : 0 < ((header stream).length.toNat : ℤ) - 8 := by omega
  by_cases hfp : e.recvFails .payload = true
  · rw [recvPayload_fails s e hpos hfp] at h
    cases congrArg Outcome.ret h
  rw [Bool.not_eq_true] at hfp
  have hfit : ¬((stream.drop ofpHdrLen).take
      (((header stream).length.toNat : ℤ) - 8).toNat).length ≤ payloadLen := by
    rw [List.length_take, List.length_drop, ofpHdrLen, payloadLen]
    omega
  rw [recvPayload_overflows s e hpos hfp hfit] at h
  cases congrArg Outcome.ret h

/-- The messages of two traces, one after the other. -/
@[simp]
theorem sends_append (w₁ w₂ : List Event) : sends (w₁ ++ w₂) = sends w₁ ++ sends w₂ :=
  List.filterMap_append

@[simp]
theorem sendsOn_append (s : Socket) (w₁ w₂ : List Event) :
    sendsOn s (w₁ ++ w₂) = sendsOn s w₁ ++ sendsOn s w₂ := by
  unfold sendsOn
  rw [sends_append, List.filterMap_append]

/-- The replies with their transaction ids. -/
def numbered (xid : UInt32) : List Reply → List (List UInt8)
  | [] => []
  | r :: rs => r.encode xid :: numbered (xid + 1) rs

/-- The labelled replies, on their socket and on any other. -/
theorem label_on (s s' : Socket) (xid : UInt32) (rs : List Reply) :
    ((label s' xid rs).filterMap fun p => if p.1 = s then some p.2 else none) =
      if s' = s then numbered xid rs else [] := by
  induction rs generalizing xid with
  | nil => simp [label, numbered]
  | cons r rs ih =>
    rw [label, List.filterMap_cons, ih]
    split_ifs <;> simp [numbered]

/-- The messages among labelled replies. -/
theorem mem_label {s s' : Socket} {xid : UInt32} {rs : List Reply} {b : List UInt8}
    (h : (s, b) ∈ label s' xid rs) : s = s' ∧ ∃ r ∈ rs, ∃ xid', b = r.encode xid' := by
  induction rs generalizing xid with
  | nil => exact absurd h List.not_mem_nil
  | cons r rs ih =>
    rw [label, List.mem_cons, Prod.mk.injEq] at h
    rcases h with ⟨hs, hb⟩ | h
    · exact ⟨hs, r, List.mem_cons_self, xid, hb⟩
    · obtain ⟨hs, r', hr', hb⟩ := ih h
      exact ⟨hs, r', List.mem_cons_of_mem r hr', hb⟩

/-- A message sent on a socket in a trace. -/
theorem mem_sendsOn {s : Socket} {w : List Event} {b : List UInt8} :
    b ∈ sendsOn s w ↔ (s, b) ∈ sends w := by
  unfold sendsOn
  rw [List.mem_filterMap]
  constructor
  · rintro ⟨⟨s', b'⟩, hm, he⟩
    split_ifs at he with hs
    simp only at hs
    rw [Option.some.injEq] at he
    rw [← hs, ← he]
    exact hm
  · exact fun hm => ⟨(s, b), hm, if_pos rfl⟩

/-- What a step sends on a socket. -/
theorem step_sendsOn (s : Socket) (hst : st.Sane) (h : step i st = ⟨.ok a, st', w⟩) :
    sendsOn s w =
      if i.socket = s then numbered st.xid ((st.view i.socket).react i.msg).2 else [] := by
  unfold sendsOn
  rw [(step_ok hst h).2, label_on]

end Step

/-! ## What the tables hold in a reachable state -/

/-- A message without its transaction id, unless it is an echo reply, whose xid is the request's. -/
def maskXid (b : List UInt8) : List UInt8 :=
  if (header b).type = ofptEchoReply then b else b.take 4 ++ [0, 0, 0, 0] ++ b.drop 8

/-- The transaction id is all that the messages of a reply differ in. -/
theorem maskXid_encode (r : Reply) (xid xid' : UInt32) :
    maskXid (r.encode xid) = maskXid (r.encode xid') := by
  unfold maskXid
  rw [header_type, header_type]
  split_ifs with h
  · cases r with
    | echoReply requestXid => rfl
    | _ => exact absurd h (ne_of_beq_false rfl)
  · cases r with
    | packetOut inPort outPort data => rfl
    | _ => rfl

/-- The machine of a socket as it is seen on the wire: its messages, without their transaction
ids. -/
def Switch.wire (v : Switch) (m : Msg) : Switch × List (List UInt8) :=
  ((v.react m).1, (v.react m).2.map fun r => maskXid (r.encode 0))

/-- The messages sent with any transaction ids, without these. -/
theorem map_maskXid_numbered (xid : UInt32) (rs : List Reply) :
    (numbered xid rs).map maskXid = rs.map fun r => maskXid (r.encode 0) := by
  induction rs generalizing xid with
  | nil => rfl
  | cons r rs ih => simp only [numbered, List.map_cons, ih, maskXid_encode r xid 0]

section Run

variable {is : List Input} {st : State} {w : List Event}

/-- The tables are sane in every reachable state. -/
theorem run_sane (h : run step is initial = ⟨.ok (), st, w⟩) : st.Sane := by
  refine run_induction (fun _ st _ => st.Sane) sane_initial ?_ h
  intro past i st₁ w₁ a st₂ w₂ _ _ hi hst
  rw [(step_ok hst hi).1]
  exact hst.after i.msg

/-- A message sent on a socket, without its transaction id. -/
def Event.wireOn (s : Socket) (ev : Event) : Option (List UInt8) :=
  ev.sent.bind fun p => if p.1 = s then some (maskXid p.2) else none

theorem filterMap_wireOn (s : Socket) (w : List Event) :
    w.filterMap (Event.wireOn s) = (sendsOn s w).map maskXid := by
  unfold sendsOn sends Event.wireOn
  rw [List.filterMap_filterMap, List.map_filterMap]
  congr 1
  funext ev
  cases ev.sent with
  | none => rfl
  | some p =>
    simp only [Option.bind_some]
    split_ifs <;> rfl

/-- Every run projects, for every socket, to the machine of that socket. -/
theorem run_wire_projects (s : Socket) (is : List Input) :
    Projects (State.view · s) (Input.msgOn s) (Event.wireOn s) Switch.wire step is initial := by
  intro past i st₁ w₁ a st₂ w₂ _ hpast hi
  have hst := run_sane hpast
  rw [filterMap_wireOn, step_sendsOn s hst hi, (step_ok hst hi).1]
  unfold Input.msgOn
  by_cases hs : i.socket = s
  · subst hs
    rw [if_pos rfl, if_pos rfl, map_maskXid_numbered]
    exact Prod.ext (hst.view_after i.msg) rfl
  · rw [if_neg hs, if_neg hs]
    exact Prod.ext (view_after_ne (Ne.symm hs) i.msg) rfl

/-- What the tables hold for a socket is what the machine of that socket alone makes of the messages
on it. -/
theorem run_view (s : Socket) (h : run step is initial = ⟨.ok (), st, w⟩) :
    st.view s = Switch.fresh.afterAll (is.filterMap (Input.msgOn s)) := by
  have hp := run_projects (run_wire_projects s is) h
  rw [view_initial] at hp
  have hview := congrArg Prod.fst hp
  rw [mealy_fst] at hview
  exact hview

/-- Induction along a run, as one switch sees it: what holds of a fresh switch to which nothing was
sent, and is preserved by each message on the socket, holds of what the tables hold for the socket
and the messages sent on it. -/
theorem run_switch_induction (s : Socket) (P : Switch → List (List UInt8) → Prop)
    (h0 : P Switch.fresh [])
    (hstep : ∀ past i st w, past ++ [i] <+: is → run step past initial = ⟨.ok (), st, w⟩ →
      i.socket = s → P (st.view s) (sendsOn s w) →
      P ((st.view s).react i.msg).1
        (sendsOn s w ++ numbered st.xid ((st.view s).react i.msg).2))
    (h : run step is initial = ⟨.ok (), st, w⟩) : P (st.view s) (sendsOn s w) := by
  refine run_induction (fun _ st w => P (st.view s) (sendsOn s w)) ?_ ?_ h
  · rw [view_initial]
    exact h0
  intro past i st₁ w₁ a st₂ w₂ hp hpast hi ih
  have hst := run_sane hpast
  rw [sendsOn_append, step_sendsOn s hst hi, (step_ok hst hi).1]
  by_cases hs : i.socket = s
  · have hreact := hstep past i st₁ w₁ hp hpast hs ih
    subst hs
    rw [if_pos rfl, hst.view_after]
    exact hreact
  · -- A message on another socket changes nothing here, and is not answered here.
    rw [if_neg hs, List.append_nil, view_after_ne (Ne.symm hs)]
    exact ih

end Run

end SdnController
