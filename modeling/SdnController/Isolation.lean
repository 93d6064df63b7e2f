import SdnController.Runs

/-!
# Switches do not interfere

The tables of all switches are two lists, and the transaction ids of all switches are one counter.
What a switch gets back depends on its own messages nevertheless: two runs that receive the same
messages on a socket, among any others on any other sockets, agree on what the tables hold for the
socket and, but for the transaction ids, on what they send on it (`switches_isolated`).
-/

namespace SdnController

open Memory Exec KeyedLists

/-- The messages received on a socket, in order. -/
def received (s : Socket) (is : List Input) : List (List UInt8) :=
  (is.filter (·.socket = s)).map fun i => firstMessage i.stream

/-- The messages that the controller acts on are determined by the messages received. -/
theorem filterMap_msgOn {s : Socket} {is : List Input} (h : ∀ i ∈ is, i.socket = s → Whole i) :
    is.filterMap (Input.msgOn s) = (received s is).map fun b => Msg.ofMem (ofBytes b) := by
  induction is with
  | nil => rfl
  | cons i is ih =>
    have ih := ih fun j hj => h j (List.mem_cons_of_mem i hj)
    unfold received at ih ⊢
    rw [List.filterMap_cons, Input.msgOn]
    by_cases hs : i.socket = s
    · obtain ⟨hwf, htotal⟩ := h i List.mem_cons_self hs
      have hmsg := msg_eq hwf fun p hp => (htotal p hp).le
      rw [if_pos hs, List.filter_cons_of_pos (by simpa using hs), List.map_cons, List.map_cons,
        ← hmsg, ← ih]
    · rw [if_neg hs, List.filter_cons_of_neg (by simpa using hs)]
      exact ih

/-- Two runs in which a switch sends the same messages end with the same answers to every lookup for
the switch, and have sent it the same messages, but for the transaction ids. -/
theorem switches_isolated {s : Socket} {is js : List Input} {st st' : State} {w w' : List Event}
    (hwhole : ∀ i ∈ is ++ js, i.socket = s → Whole i) (hsame : received s is = received s js)
    (h : run step is initial = ⟨.ok (), st, w⟩) (h' : run step js initial = ⟨.ok (), st', w'⟩) :
    (∀ m, findPort s st.ll m = findPort s st'.ll m) ∧
      (∀ m, findNode s st.ll m = findNode s st'.ll m) ∧
      (∀ d m, (findFlow s st.flows d m).map FlowNode.port =
        (findFlow s st'.flows d m).map FlowNode.port) ∧
      (sendsOn s w).map maskXid = (sendsOn s w').map maskXid := by
  have hmsgs : is.filterMap (Input.msgOn s) = js.filterMap (Input.msgOn s) := calc
    is.filterMap (Input.msgOn s) = (received s is).map fun b => Msg.ofMem (ofBytes b) :=
      filterMap_msgOn fun i hi => hwhole i (List.mem_append_left _ hi)
    _ = (received s js).map fun b => Msg.ofMem (ofBytes b) := by rw [hsame]
    _ = js.filterMap (Input.msgOn s) :=
      (filterMap_msgOn fun i hi => hwhole i (List.mem_append_right _ hi)).symm
  obtain ⟨hview, hsent⟩ :=
    run_projects_agree (run_wire_projects s is) (run_wire_projects s js) hmsgs h h'
  simp only [filterMap_wireOn] at hview hsent
  -- Every lookup is a lookup in what the tables hold for the socket.
  have hpaths : innerList s st.ll = innerList s st'.ll := congrArg Switch.paths hview
  have hflows : innerList s st.flows = innerList s st'.flows := congrArg Switch.flows hview
  refine ⟨?_, ?_, ?_, hsent⟩
  · intro m
    rw [findPort_eq, findPort_eq, hview]
  · intro m
    unfold findNode
    rw [search_eq, search_eq, hpaths]
  · intro d m
    unfold findFlow
    rw [search_eq, search_eq, hflows]

/-- The same two messages, with another switch's hello and ARP reply between them. -/
def conversationAmongOthers (s s' : Socket) : List Input :=
  [Input.plain s' [1, 0, 0, 8, 0, 0, 0, 5], request s,
    Input.plain s' (packetInBytes 9 (arpFrame 2 hostB hostA)), reply s]

/-- The other switch changes nothing but transaction ids. -/
theorem switches_isolated_conversation :
    (sendsOn 4 (run step (conversation 4) initial).events).map maskXid =
      (sendsOn 4 (run step (conversationAmongOthers 4 5) initial).events).map maskXid := by
  have h := run_of_isOk step (conversation 4) initial (by decide +kernel)
  have h' := run_of_isOk step (conversationAmongOthers 4 5) initial
    (by decide +kernel)
  exact (switches_isolated (by decide +kernel) (by decide +kernel) h h').2.2.2

end SdnController
