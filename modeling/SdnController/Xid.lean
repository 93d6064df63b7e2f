import SdnController.Runs

/-!
# Transaction ids

The transaction ids of the messages that the controller originates, which are all but the echo
replies. Every function that sends takes the id from one counter and advances it by hand. All do so
once for each message, so that the ids of a run count up from 1 (`run_xids`), except `sendLoopFlow`,
which does not advance it at all: the next message, to whatever switch, has the id of the flow-mod
for a frame sent to its own source. `xids_distinct` is about the runs that never get there.
-/

namespace SdnController

open Memory Exec KeyedLists

/-! ## Consecutive values of the counter -/

/-- The `n` values of a counter from `x` on. -/
def consecutive (x : UInt32) (n : ℕ) : List UInt32 := (List.range n).map fun k => x + UInt32.ofNat k

/-- One value, and then the ones after it. -/
theorem consecutive_succ (x : UInt32) (n : ℕ) :
    consecutive x (n + 1) = x :: consecutive (x + 1) n := by
  unfold consecutive
  rw [List.range_succ_eq_map, List.map_cons, List.map_map]
  have h0 : x + UInt32.ofNat 0 = x := by simp
  rw [h0]
  congr 1
  refine List.map_congr_left fun k _ => ?_
  rw [Function.comp_apply, Nat.succ_eq_add_one, Nat.add_comm, UInt32.ofNat_add, ← UInt32.add_assoc]
  rfl

/-- The values after the first `m`. -/
theorem consecutive_add (x : UInt32) (m n : ℕ) :
    consecutive x (m + n) = consecutive x m ++ consecutive (x + UInt32.ofNat m) n := by
  induction m generalizing x with
  | zero => simp [consecutive]
  | succ m ih =>
    have hx : x + 1 + UInt32.ofNat m = x + UInt32.ofNat (m + 1) := by
      rw [Nat.add_comm m, UInt32.ofNat_add, ← UInt32.add_assoc]
      rfl
    rw [Nat.add_right_comm, consecutive_succ, ih, consecutive_succ, hx]
    rfl

/-- A beginning of consecutive values is consecutive values. -/
theorem eq_consecutive {x : UInt32} {n : ℕ} {l : List UInt32}
    (h : l <+: consecutive x n) : l = consecutive x l.length := by
  have hle : l.length ≤ n := by simpa [consecutive] using h.length_le
  obtain ⟨k, rfl⟩ := Nat.exists_eq_add_of_le hle
  rw [consecutive_add] at h
  have hp : consecutive x l.length <+:
      consecutive x l.length ++ consecutive (x + UInt32.ofNat l.length) k :=
    List.prefix_append _ _
  exact (List.prefix_of_prefix_length_le h hp (by simp [consecutive])).eq_of_length
    (by simp [consecutive])

/-- Consecutive values are distinct until the counter comes round. -/
theorem nodup_consecutive (x : UInt32) {n : ℕ} (h : n ≤ 2 ^ 32) : (consecutive x n).Nodup := by
  refine List.Nodup.map_on ?_ List.nodup_range
  intro j hj k hk he
  have hj := List.mem_range.mp hj
  have hk := List.mem_range.mp hk
  have he : UInt32.ofNat j = UInt32.ofNat k := by simpa using he
  have hjk := congrArg UInt32.toNat he
  rw [UInt32.toNat_ofNat', UInt32.toNat_ofNat', Nat.mod_eq_of_lt (by omega),
    Nat.mod_eq_of_lt (by omega)] at hjk
  exact hjk

/-! ## The ids of a step -/

/-- The transaction ids of the originated messages in a list of messages, in order. -/
def originated (ms : List (Socket × List UInt8)) : List UInt32 :=
  (ms.filter fun m => (header m.2).type ≠ ofptEchoReply).map fun m => (header m.2).xid

theorem originated_append (ms ms' : List (Socket × List UInt8)) :
    originated (ms ++ ms') = originated ms ++ originated ms' := by
  unfold originated
  rw [List.filter_append, List.map_append]

/-- Originated replies have consecutive ids. -/
theorem originated_label (s : Socket) (xid : UInt32) {rs : List Reply}
    (h : ∀ r ∈ rs, r.type ≠ ofptEchoReply) :
    originated (label s xid rs) = consecutive xid rs.length := by
  induction rs generalizing xid with
  | nil => rfl
  | cons r rs ih =>
    obtain ⟨hr, hrs⟩ := List.forall_mem_cons.mp h
    have htype : (header (r.encode xid)).type ≠ ofptEchoReply := by
      rw [header_type]
      exact hr
    have ih := ih (xid + 1) hrs
    unfold originated at ih ⊢
    rw [label, List.filter_cons_of_pos (by simpa using htype), List.map_cons, ih, header_xid xid hr,
      List.length_cons, consecutive_succ]

/-- The message is not a frame sent to its own source, for which `sendLoopFlow` answers. -/
def Msg.NoLoopback (m : Msg) : Prop := ∀ p, m = .packetIn p → p.arpReply = false → p.dst ≠ p.src

instance (m : Msg) : Decidable m.NoLoopback :=
  inferInstanceAs (Decidable (∀ p, m = .packetIn p → p.arpReply = false → p.dst ≠ p.src))

/-- The ids of the replies to a message are consecutive, and the counter ends after the last. -/
theorem react_xids (st : State) (s : Socket) {m : Msg} (h : m.NoLoopback) :
    ∃ n, originated (label s st.xid ((st.view s).react m).2) = consecutive st.xid n ∧
      (st.after s m).xid = st.xid + UInt32.ofNat n := by
  cases m with
  | echoRequest xid =>
    refine ⟨0, ?_, by simp [State.after]⟩
    have htype : (header ((Reply.echoReply xid).encode st.xid)).type = ofptEchoReply :=
      header_type ..
    simp [Switch.react, label, originated, htype, consecutive]
  | ignored => exact ⟨0, rfl, by simp [State.after]⟩
  | hello =>
    refine ⟨2, originated_label s st.xid ?_, UInt32.add_assoc ..⟩
    simp [Switch.react, Reply.type, ofptEchoReply]
  | featuresReply =>
    refine ⟨2, originated_label s st.xid ?_, UInt32.add_assoc ..⟩
    simp [Switch.react, Reply.type, ofptEchoReply]
  | packetIn p =>
    simp only [Switch.react, Switch.packetIn, State.after]
    split_ifs with harp hd
    · refine ⟨3, originated_label s st.xid ?_, ?_⟩
      · simp [Reply.type, ofptEchoReply, ofptFlowMod, ofptPacketOut]
      · simp only
        rw [UInt32.add_assoc, UInt32.add_assoc]
        rfl
    · exact absurd hd (h p rfl (by simpa using harp))
    · refine ⟨1, originated_label s st.xid ?_, rfl⟩
      simp [Reply.type, ofptEchoReply, ofptPacketOut]

/-! ## The ids of a run -/

/-- A step that does not answer a loopback frame. -/
def NoLoopback (_ : State) (i : Input) : Prop := i.msg.NoLoopback

instance (st : State) (i : Input) : Decidable (NoLoopback st i) :=
  inferInstanceAs (Decidable i.msg.NoLoopback)

section Runs

variable {is : List Input} {st : State} {w : List Event}

/-- The ids of a run that completes count up from 1, and the counter is at the next one. -/
theorem run_xids (hloop : Always NoLoopback step is initial)
    (h : run step is initial = ⟨.ok (), st, w⟩) :
    ∃ n, originated (sends w) = consecutive 1 n ∧ st.xid = 1 + UInt32.ofNat n := by
  refine run_induction
    (fun _ st w => ∃ n, originated (sends w) = consecutive 1 n ∧ st.xid = 1 + UInt32.ofNat n)
    ⟨0, rfl, rfl⟩ ?_ h
  rintro past i st₁ w₁ a st₂ w₂ hp hpast hi ⟨n, hids, hxid⟩
  obtain ⟨hafter, hsent⟩ := step_ok (run_sane hpast) hi
  obtain ⟨k, hstep, hnext⟩ := react_xids st₁ i.socket (hloop past i st₁ w₁ hp hpast)
  refine ⟨n + k, ?_, ?_⟩
  · rw [sends_append, originated_append, hids, hsent, hstep, hxid, consecutive_add]
  · rw [hafter, hnext, hxid, UInt32.add_assoc, UInt32.ofNat_add]

/-- In a run without loopback frames, whether it completes or stops, no two originated messages have
the same transaction id until 2^32 messages are sent. -/
theorem xids_distinct (is : List Input) (hloop : Always NoLoopback step is initial)
    (hfew : (sends (run step is initial).events).length < 2 ^ 32) :
    (originated (sends (run step is initial).events)).Nodup := by
  have hstart : ∃ n, originated (sends (run step is initial).events) <+: consecutive 1 n := by
    rcases run_cases step is initial with
      ⟨st, w, h⟩ | ⟨past, i, st₁, w₁, e, st, w₂, hp, hpast, hi, h⟩
    · obtain ⟨n, hids, -⟩ := run_xids hloop h
      rw [h]
      exact ⟨n, hids ▸ List.prefix_rfl⟩
    · -- The step that stopped has sent the first of its replies.
      have hloop' := hloop.of_prefix ((List.prefix_append past [i]).trans hp)
      obtain ⟨n, hids, hxid⟩ := run_xids hloop' hpast
      obtain ⟨rest, hrest⟩ := step_error (run_sane hpast) hi
      obtain ⟨k, hstep, -⟩ := react_xids st₁ i.socket (hloop past i st₁ w₁ hp hpast)
      rw [← hrest, originated_append, hxid] at hstep
      refine ⟨n + k, ?_⟩
      rw [h, sends_append, originated_append, hids, consecutive_add, ← hstep, ← List.append_assoc]
      exact List.prefix_append _ _
  obtain ⟨n, hn⟩ := hstart
  -- There are no more ids than messages, so the counter has not come round.
  have hlen : (originated (sends (run step is initial).events)).length < 2 ^ 32 := by
    refine lt_of_le_of_lt ?_ hfew
    unfold originated
    rw [List.length_map]
    exact List.length_filter_le _ _
  rw [eq_consecutive hn]
  exact nodup_consecutive 1 hlen.le

end Runs

/-- The six messages of a handshake and a conversation. -/
theorem xids_distinct_conversation :
    (originated (sends (run step (Input.plain 4 [1, 0, 0, 8, 0, 0, 0, 5] :: conversation 4)
      initial).events)).Nodup :=
  xids_distinct _
    (always_cons (by decide +kernel) (always_cons (by decide +kernel)
      (always_cons (by decide +kernel) always_nil)))
    (by decide +kernel)

/-- Host A sends to itself through one switch, and another switch says hello. -/
def loopbackThenHello : List Input :=
  [Input.plain 4 (packetInBytes 1 (arpFrame 1 hostA hostA)), Input.plain 5 [1, 0, 0, 8, 0, 0, 0, 5]]

/-- The flow-mod and the hello have the same transaction id. -/
theorem xids_reused_loopbackThenHello :
    (∀ i ∈ loopbackThenHello, Whole i) ∧ (run step loopbackThenHello initial).ret.isOk = true ∧
      (sends (run step loopbackThenHello initial).events).length < 2 ^ 32 ∧
      ¬(originated (sends (run step loopbackThenHello initial).events)).Nodup := by
  decide +kernel

end SdnController
