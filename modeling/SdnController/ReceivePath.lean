import SdnController.Bounds
import Mathlib.Algebra.BigOperators.Group.List.Basic

/-!
# The receive path

How many bytes `recvData` asks `recv` for, and how many `handlePacketIn` copies, are both computed
from the length in the header of the message, which the peer chooses. `receive_inside` is the exact
condition on that length under which the two buffers of a fixed size and the one of the message's
own length hold what is put into them.

`Event.Fits` is what the events after the payload must be for that. No message but a packet-in is
asked anything of it, except that nothing more is received (`fits_dispatch`).
-/

namespace SdnController

open Memory Exec

/-- The number of bytes that an event receives into a buffer. -/
def Event.receivedInto (buf : Buf) : Event → ℕ
  | .recv _ b _ got => if b = buf then got else 0
  | _ => 0

/-- The number of bytes received into a buffer in a trace. -/
def receivedInto (buf : Buf) (w : List Event) : ℕ := (w.map (Event.receivedInto buf)).sum

/-- The receive path stays inside its buffers: `recv` is asked for no more than `payload` holds, and
a packet-in is put together from as many bytes as were received, inside its buffer. -/
structure StaysInside (stream : List UInt8) (w : List Event) : Prop where
  asked : ∀ s asked got, .recv s .payload asked got ∈ w → asked ≤ payloadLen
  copied : (header stream).type = ofptPacketIn → ∀ a, .access a ∈ w → a.buf = .payload →
    0 ≤ a.len ∧ a.len ≤ (receivedInto .payload w : ℤ)
  repacked : (header stream).type = ofptPacketIn → ∀ a, .access a ∈ w → a.buf = .rawPktIn →
    a.kind = .write → a.Inside

/-! ## After the payload -/

/-- An event after the payload was received, where `k` bytes of it may be copied and what is
repacked stays inside its buffer, if `c` asks for that. -/
def Event.Fits (c : Prop) (k : ℕ) : Event → Prop
  | .access a => c → (a.buf = .payload → 0 ≤ a.len ∧ a.len ≤ k) ∧
      (a.buf = .rawPktIn → a.kind = .write → a.Inside)
  | .recv .. => False
  | _ => True

section Dispatch

variable {c : Prop} {k : ℕ} (s : Socket) (e : Env) (st : State) (n : ℕ) (hm pm : Mem)

/-- A frame is handled without another look at the payload. -/
theorem fits_handleFrame (m : Mem) :
    (handleFrame s ⟨.rawPktIn, n, m, 0⟩ e st).Safe (Event.Fits c k) (fun _ => False) ↔ True := by
  have hread : ∀ off len, (frameRead n off len).Fits c k := by
    intro off len
    simp [frameRead, Event.Fits]
  have hout : ∀ outPort st', (makeSendPacketOut s ⟨.rawPktIn, n, m, 0⟩ (htons outPort) e st').Safe
      (Event.Fits c k) (fun _ => False) ↔ True := by
    intro outPort st'
    rw [safe_makeSendPacketOut_sends s e st' n m (fun _ => id) hread (by simp [Event.Fits])]
    exact iff_true_intro fun _ _ _ => trivial
  rw [safe_handleFrame s e st n m (fun _ _ _ _ => trivial) id hout]
  simp only [hread, implies_true, and_self]

/-- A packet-in is put together from the payload. -/
theorem fits_handlePacketIn :
    (handlePacketIn s ⟨.packet, ofpHdrLen, hm, 0⟩ ⟨.payload, payloadLen, pm, 0⟩ n e st).Safe
      (Event.Fits c k) (fun _ => False) ↔ (c → 8 ≤ n ∧ n ≤ 8 + k) := by
  -- A copy that reads too far of the payload is one of too many bytes.
  rw [handlePacketIn_eq, safe_repack]
  simp only [fits_handleFrame, Event.Fits, Access.Inside, ofpHdrLen, reduceCtorEq, false_implies,
    true_implies, implies_true, and_true, true_and, not_false_eq_true]
  by_cases hc : c
  · simp only [hc, true_implies]
    split_ifs
    · omega
    · rw [and_true]
      omega
    · rw [and_true]
      omega
  · simp [hc]

/-- What answers a hello is only sent. -/
theorem fits_estOFConnection :
    (estOFConnection s e st).Safe (Event.Fits c k) (fun _ => False) := by
  unfold estOFConnection
  simp only [safe_getState, safe_send, safe_bumpXid, safe_bumpXid_end, Event.Fits,
    not_false_eq_true, and_self, ite_self]

/-- What answers a features reply is only sent. -/
theorem fits_setConfig : (setConfig s e st).Safe (Event.Fits c k) (fun _ => False) := by
  unfold setConfig
  simp only [safe_getState, safe_send, safe_bumpXid, safe_bumpXid_end, Event.Fits,
    not_false_eq_true, and_self, ite_self]

/-- Nothing is asked of an access where `c` does not ask for it. -/
theorem fits_touch (hc : ¬c) (p : Ptr) (kind : AccessKind) (len : ℤ) :
    (p.touch kind len e st).Safe (Event.Fits c k) (fun _ => False) := by
  rw [touch_apply, Outcome.safe_of_never, List.forall_mem_singleton]
  exact fun h => absurd h hc

theorem fits_u16 (hc : ¬c) (p : Ptr) : (p.u16 e st).Safe (Event.Fits c k) (fun _ => False) :=
  safe_bind (fits_touch e st hc p ..) fun _ st' => (safe_pure e st' _).mpr trivial

/-- The loop of `reportFeatures` reads the payload. -/
theorem fits_reportPorts (hc : ¬c) (payload : Ptr) (i m : ℕ) :
    (reportPorts payload i m e st).Safe (Event.Fits c k) (fun _ => False) := by
  induction m generalizing i st with
  | zero => exact (safe_pure e st _).mpr trivial
  | succ m ih =>
    refine safe_bind (fits_u16 e st hc _) fun _ st₁ => ?_
    exact safe_bind (ih st₁ _) fun _ st₂ => (safe_pure e st₂ _).mpr trivial

/-- `reportFeatures` reads the payload, and prints. -/
theorem fits_reportFeatures (hc : ¬c) (payload : Ptr) :
    (reportFeatures hm payload e st).Safe (Event.Fits c k) (fun _ => False) := by
  refine safe_bind (fits_touch e st hc ..) fun _ st₁ => ?_
  refine safe_bind (fits_reportPorts e st₁ hc ..) fun _ st₂ => ?_
  rw [emit_apply, Outcome.safe_ok, List.forall_mem_singleton]
  trivial

/-- `reportPort` reads the payload, and prints. -/
theorem fits_reportPort (hc : ¬c) (payload : Ptr) :
    (reportPort payload e st).Safe (Event.Fits c k) (fun _ => False) := by
  refine safe_bind (safe_bind (fits_touch e st hc ..) fun _ st₁ => ?_) fun _ st₁ => ?_
  · exact (safe_pure e st₁ _).mpr trivial
  refine safe_bind (fits_u16 e st₁ hc _) fun _ st₂ => ?_
  rw [emit_apply, Outcome.safe_ok, List.forall_mem_singleton]
  trivial

/-- The action on a message receives nothing more. -/
theorem fits_dispatch (hc : c → hm 1 = ofptPacketIn) :
    (dispatch s ⟨.packet, ofpHdrLen, hm, 0⟩ ⟨.payload, payloadLen, pm, 0⟩ n e st).Safe
      (Event.Fits c k) (fun _ => False) ↔ (c → 8 ≤ n ∧ n ≤ 8 + k) := by
  by_cases ht : hm 1 = ofPacketIn
  · rw [dispatch_packetIn s _ n ht, fits_handlePacketIn]
  -- Nothing is asked of any other type.
  have hc' : ¬c := fun h => ht (hc h)
  unfold dispatch
  simp only [safe_ite]
  rw [if_neg ht]
  refine iff_of_true ?_ fun h => absurd h hc'
  split_ifs
  · exact fits_estOFConnection s e st
  · exact safe_bind (fits_reportFeatures e st hm hc' _) fun _ st' => fits_setConfig s e st'
  · simp only [sendEchoReply, safe_sendOrExit, Event.Fits, not_false_eq_true, ite_self]
  · exact fits_reportPort e st hc' _
  · rw [safe_pure]
    trivial

end Dispatch

/-! ## A call of `recvData` -/

section RecvData

variable {s : Socket} {e : Env} {st : State} {stream : List UInt8}

/-- Nothing is received after the payload. -/
theorem receivedInto_append (buf : Buf) {wp wd : List Event} (hwd : ∀ ev ∈ wd, ev.Fits False 0) :
    receivedInto buf (wp ++ wd) = receivedInto buf wp := by
  have h0 : (wd.map (Event.receivedInto buf)).sum = 0 := by
    refine List.sum_eq_zero fun x hx => ?_
    obtain ⟨ev, hev, rfl⟩ := List.mem_map.mp hx
    have hfits := hwd ev hev
    cases ev with
    | recv => exact absurd hfits id
    | _ => rfl
  unfold receivedInto
  rw [List.map_append, List.sum_append, h0, Nat.add_zero]

/-- A call stays inside its buffers when the one `recv` into the payload does, and the events after
it fit what it received. -/
theorem staysInside_iff {got : ℕ} (wp wd : List Event)
    (hwp : ∀ ev ∈ wp, ∃ asked got, ev = .recv s .payload asked got)
    (hwd : ∀ ev ∈ wd, ev.Fits False 0) :
    StaysInside stream (.recv s .packet ofpHdrLen got :: (wp ++ wd)) ↔
      (∀ s asked got, .recv s .payload asked got ∈ wp → asked ≤ payloadLen) ∧
        ∀ ev ∈ wd, ev.Fits ((header stream).type = ofptPacketIn) (receivedInto .payload wp) := by
  have hreceived : receivedInto .payload (.recv s .packet ofpHdrLen got :: (wp ++ wd)) =
      receivedInto .payload wp := by
    have happend : receivedInto .payload (wp ++ wd) = receivedInto .payload wp :=
      receivedInto_append .payload hwd
    rw [← happend]
    unfold receivedInto
    rw [List.map_cons, List.sum_cons]
    exact Nat.zero_add _
  have haccess : ∀ a, .access a ∈ (.recv s .packet ofpHdrLen got :: (wp ++ wd) : List Event) →
      .access a ∈ wd := by
    intro a ha
    rcases List.mem_cons.mp ha with h | h
    · cases h
    rcases List.mem_append.mp h with h | h
    · obtain ⟨_, _, h⟩ := hwp _ h
      cases h
    · exact h
  -- The accesses are all after the payload, and what it received is known by then.
  constructor
  · intro h
    refine ⟨fun s' asked got' hmem => h.asked s' asked got' (by simp [hmem]), fun ev hev => ?_⟩
    have hfits := hwd ev hev
    cases ev with
    | access a =>
      have ha : .access a ∈ (.recv s .packet ofpHdrLen got :: (wp ++ wd) : List Event) := by
        simp [hev]
      intro ht
      have hcopied := h.copied ht a ha
      rw [hreceived] at hcopied
      exact ⟨hcopied, h.repacked ht a ha⟩
    | recv => exact hfits
    | _ => trivial
  · rintro ⟨hasked, hfits⟩
    refine ⟨fun s' asked got' hmem => ?_, fun ht a ha hbuf => ?_, fun ht a ha => ?_⟩
    · rcases List.mem_cons.mp hmem with h | h
      · cases h
      rcases List.mem_append.mp h with h | h
      · exact hasked s' asked got' h
      · exact absurd (hwd _ h) id
    · rw [hreceived]
      exact (hfits _ (haccess a ha) ht).1 hbuf
    · exact (hfits _ (haccess a ha) ht).2

/-- The bytes of one `recv` into the payload. -/
theorem receivedInto_singleton (asked got : ℕ) :
    receivedInto .payload [.recv s .payload asked got] = got := rfl

/-- What one `recv` into the payload asks for. -/
theorem asked_singleton {n got₀ : ℕ} :
    (∀ s' asked got, .recv s' .payload asked got ∈ [Event.recv s .payload n got₀] →
      asked ≤ payloadLen) ↔ n ≤ payloadLen := by
  constructor
  · intro h
    exact h s n got₀ (List.mem_singleton.mpr rfl)
  · intro h s' asked got hmem
    rw [List.mem_singleton, Event.recv.injEq] at hmem
    rw [hmem.2.2.1]
    exact h

/-- What a call does once its header was received. -/
theorem recvData_events (hf : e.recvFails .packet = false) (hlen : 8 ≤ stream.length) :
    (recvData s stream e st).events = .recv s .packet ofpHdrLen 8 ::
      ((recvPayload s (((header stream).length.toNat : ℤ) - 8) (stream.drop ofpHdrLen) e st).andThen
        fun p st => (dispatch s ⟨.packet, ofpHdrLen, headerMem stream, 0⟩
          ⟨.payload, payloadLen, p.1, 0⟩ (header stream).length.toNat e st).andThen
            fun _ st => ⟨.ok ((1 : ℤ), p.2), st, []⟩).events := by
  unfold recvData
  rw [bind_apply, recv_header s st hf hlen, Outcome.andThen_ok, prog_ite_apply,
    if_neg (show ¬(8 : ℤ) ≤ 0 by decide)]
  simp only [ntohs_headerMem]
  rfl

/-- What a call does when its header was not received. -/
theorem recvData_events_of_fails (hf : e.recvFails .packet = true) :
    (recvData s stream e st).events = [.recv s .packet ofpHdrLen 0] := by
  unfold recvData
  rw [bind_apply, recv_fails s e hf]
  rfl

/-- The events of the action on a message, for any payload. -/
theorem fits_dispatch_events {c : Prop} {k : ℕ} (hc : c → (header stream).type = ofptPacketIn)
    (n : ℕ) (m : Mem) :
    (∀ ev ∈ (dispatch s ⟨.packet, ofpHdrLen, headerMem stream, 0⟩ ⟨.payload, payloadLen, m, 0⟩ n e
      st).events, ev.Fits c k) ↔ (c → 8 ≤ n ∧ n ≤ 8 + k) := by
  rw [← Outcome.safe_of_never, fits_dispatch]
  intro h
  rw [headerMem_eq stream (by decide)]
  exact hc h

/-- A call whose header was received stays inside its buffers exactly when the length in it is at
most 1008 and that of a packet-in is at least 8 and not more than what the peer sends. -/
theorem staysInside_of_header (hf : e.recvFails .packet = false) (hlen : 8 ≤ stream.length) :
    StaysInside stream (recvData s stream e st).events ↔
      (header stream).length.toNat ≤ 1008 ∧
        ((header stream).type = ofptPacketIn → 8 ≤ (header stream).length.toNat ∧
          ((header stream).length.toNat ≤ stream.length ∨ e.recvFails .payload = true)) := by
  rw [recvData_events hf hlen]
  generalize (header stream).length.toNat = L
  by_cases hn : (L : ℤ) - 8 ≤ 0
  · rw [recvPayload_none s e hn, Outcome.andThen_ok, Outcome.events_andThen_ok,
      staysInside_iff [] _ (by simp) ((fits_dispatch_events False.elim _ _).mpr False.elim),
      fits_dispatch_events id, show receivedInto .payload [] = 0 from rfl]
    simp only [List.not_mem_nil, false_implies, implies_true, true_and]
    grind
  -- Something is asked for: all of the message that comes after the header.
  obtain ⟨n, rfl⟩ : ∃ n : ℕ, L = 8 + n := ⟨L - 8, by omega⟩
  have hasked : ((8 + n : ℕ) : ℤ) - 8 = (n : ℤ) := by omega
  have hpos : 0 < (n : ℤ) := by omega
  have hgot : ((stream.drop ofpHdrLen).take n).length = min n (stream.length - 8) := by
    rw [List.length_take, List.length_drop, ofpHdrLen]
  have hmost : n ≤ payloadLen ↔ 8 + n ≤ 1008 := by
    rw [payloadLen]
    omega
  rw [hasked]
  by_cases hfp : e.recvFails .payload = true
  · rw [recvPayload_fails s e hpos hfp, Outcome.andThen_error,
      ← List.append_nil [Event.recv s .payload (n : ℤ).toNat 0],
      staysInside_iff _ [] (by simp) (by simp), asked_singleton, Int.toNat_natCast, hmost]
    simp only [List.not_mem_nil, false_implies, implies_true, and_true, hfp, or_true,
      Nat.le_add_right]
  rw [Bool.not_eq_true] at hfp
  by_cases hfit : ((stream.drop ofpHdrLen).take (n : ℤ).toNat).length ≤ payloadLen
  · have hsent : 8 + n ≤ 8 + min n (stream.length - 8) ↔ 8 + n ≤ stream.length := by omega
    rw [recvPayload_stores s e hpos hfp hfit, Outcome.andThen_ok, Outcome.events_andThen_ok,
      staysInside_iff _ _ (by simp) ((fits_dispatch_events False.elim _ _).mpr False.elim),
      fits_dispatch_events id, receivedInto_singleton, asked_singleton, Int.toNat_natCast, hgot,
      hmost, hsent]
    simp only [hfp, Bool.false_eq_true, or_false]
  · -- More comes than the payload holds, so more was asked for.
    rw [recvPayload_overflows s e hpos hfp hfit, Outcome.andThen_error,
      ← List.append_nil [Event.recv s .payload _ _], staysInside_iff _ [] (by simp) (by simp),
      asked_singleton, Int.toNat_natCast, hmost]
    rw [Int.toNat_natCast, hgot, payloadLen] at hfit
    have hlong : ¬8 + n ≤ 1008 := by omega
    simp only [hlong, false_and]

end RecvData

/-- A call stays inside its buffers exactly when the header is not received, or the length in it is
at most 1008 and that of a packet-in is at least 8 and not more than what the peer sends. -/
theorem receive_inside (i : Input) (st : State) (hlen : 8 ≤ i.stream.length) :
    StaysInside i.stream (step i st).events ↔
      i.env.recvFails .packet = true ∨ (header i.stream).length.toNat ≤ 1008 ∧
        ((header i.stream).type = ofptPacketIn → 8 ≤ (header i.stream).length.toNat ∧
          ((header i.stream).length.toNat ≤ i.stream.length ∨
            i.env.recvFails .payload = true)) := by
  unfold step
  by_cases hf : i.env.recvFails .packet = true
  · rw [recvData_events_of_fails hf, show [Event.recv i.socket .packet ofpHdrLen 0] =
      .recv i.socket .packet ofpHdrLen 0 :: ([] ++ []) from rfl,
      staysInside_iff [] [] (by simp) (by simp)]
    simp [hf]
  · rw [Bool.not_eq_true] at hf
    rw [staysInside_of_header hf hlen, hf]
    simp only [Bool.false_eq_true, false_or]

/-- A features reply of a switch with `n` ports, as zeros after its header. -/
def featuresReply (n : ℕ) : List UInt8 :=
  [1, 6] ++ be16Bytes (UInt16.ofNat (32 + 48 * n)) ++ List.replicate (28 + 48 * n) 0

/-- The calls of a conversation stay inside the buffers. -/
theorem receive_inside_request : StaysInside (request 4).stream (step (request 4) initial).events :=
  (receive_inside (request 4) initial (by decide +kernel)).mpr (.inr (by decide +kernel))

/-- A switch with 21 ports sends more than `payload` holds, and a packet-in that counts only four
bytes is copied past the end of its buffer. -/
theorem receive_outside_featuresReply :
    ¬StaysInside (featuresReply 21) (step (Input.plain 4 (featuresReply 21)) initial).events ∧
      ¬StaysInside [1, 10, 0, 4, 0, 0, 0, 0]
        (step (Input.plain 4 [1, 10, 0, 4, 0, 0, 0, 0]) initial).events := by
  constructor
  · intro h
    have hasked := h.asked 4 1032 1032 (by decide +kernel)
    exact absurd hasked (by decide)
  · intro h
    have hinside := h.repacked (by decide) ⟨.write, .rawPktIn, 4, 0, 8⟩ (by decide +kernel) rfl rfl
    exact absurd hinside (by decide)

end SdnController
