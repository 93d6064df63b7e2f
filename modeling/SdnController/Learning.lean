import SdnController.Runs

/-!
# What the controller has learned

In every reachable state the address table says, for each switch, on which port each address was
seen first, and nothing else (`learned_first`). The lookups stop at the first outer node of a
socket, so this needs the nodes of both levels to be distinct, which is part of the statement.
-/

namespace SdnController

open Memory Exec KeyedLists

/-- The sightings on a socket, earliest first. -/
def sightings (s : Socket) (is : List Input) : List PathNode :=
  (is.filter (·.socket = s)).filterMap Input.sighting

/-- The sightings on a socket are those of the messages read on it. -/
theorem sightings_eq (s : Socket) {is : List Input} {frame : ℕ} (hframe : 12 ≤ frame)
    (hwf : ∀ i ∈ is, WellFormed frame i.stream) :
    sightings s is = (is.filterMap (Input.msgOn s)).filterMap Msg.sighting := by
  unfold sightings
  rw [List.filterMap_filterMap, ← List.filterMap_eq_filter, List.filterMap_filterMap]
  refine List.filterMap_congr fun i hi => ?_
  unfold Input.msgOn
  by_cases hs : i.socket = s
  · simp [hs, msg_sighting (hwf i hi) hframe, Option.guard]
  · simp [hs, Option.guard]

section Learned

variable {is : List Input} {st : State} {w : List Event}

/-- The inner list of a node is what the table holds for its socket. -/
theorem head_eq_view (hst : st.Sane) {n : Outer Socket PathNode} (hn : n ∈ st.ll) :
    n.head = (st.view n.key).paths :=
  (innerList_of_mem hst.ll_nodup hn).symm

/-- What the table holds for a socket is found in the sightings on it. -/
theorem find?_view_paths {frame : ℕ} (hframe : 12 ≤ frame)
    (hwf : ∀ i ∈ is, WellFormed frame i.stream) (h : run step is initial = ⟨.ok (), st, w⟩)
    (s : Socket) (a : Mac) :
    (st.view s).paths.find? (PathNode.leadsTo a) =
      (sightings s is).find? (PathNode.leadsTo a) := by
  rw [run_view s h, Switch.find?_paths, sightings_eq s hframe hwf]

/-- After any run on well-formed messages, the sockets and the addresses of each are distinct, the
port of an address is the one that it was seen on first, an address is known when it was seen, and
no later message changes any of it. -/
theorem learned_first (hwf : ∀ i ∈ is, WellFormed 22 i.stream)
    (h : run step is initial = ⟨.ok (), st, w⟩) :
    (st.ll.map Outer.key).Nodup ∧
      (∀ n ∈ st.ll, (n.head.map PathNode.toMac).Nodup) ∧
      (∀ s a, findPort s st.ll a =
        (((sightings s is).find? fun n => n.toMac = a).map PathNode.port).getD 0) ∧
      (∀ s a, findNode s st.ll a = 1 ↔ ∃ n ∈ sightings s is, n.toMac = a) ∧
      ∀ later st' w', run step (is ++ later) initial = ⟨.ok (), st', w'⟩ →
        ∀ s, innerList s st.ll <:+ innerList s st'.ll := by
  have hst := run_sane h
  have hfind := find?_view_paths (by decide) hwf h
  refine ⟨hst.ll_nodup, ?_, ?_, ?_, ?_⟩
  · intro n hn
    rw [head_eq_view hst hn, run_view n.key h]
    exact Switch.nodup_paths _
  · intro s a
    calc findPort s st.ll a = (st.view s).port a := findPort_eq st s a
      _ = (((sightings s is).find? fun n => n.toMac = a).map PathNode.port).getD 0 := by
        rw [Switch.port, hfind s a]
        rfl
  · intro s a
    unfold findNode
    rw [search_eq, show innerList s st.ll = (st.view s).paths from rfl, hfind s a]
    have hiff : ((sightings s is).find? (PathNode.leadsTo a)).isSome = true ↔
        ∃ n ∈ sightings s is, n.toMac = a := by simp [List.find?_isSome, PathNode.leadsTo]
    rw [← hiff]
    split_ifs with hsome <;> simp [hsome]
  · intro later st' w' h' s
    have hview := run_view s h'
    rw [List.filterMap_append, Switch.afterAll_append, ← run_view s h] at hview
    have hsuffix := (st.view s).suffix_paths (later.filterMap (Input.msgOn s))
    rw [← hview] at hsuffix
    exact hsuffix

end Learned

/-- A host that is seen on a port of two switches each, and then on another port of the first. -/
def movingHost : List Input :=
  [request 4, Input.plain 5 (packetInBytes 7 (arpFrame 1 hostB hostA)),
    Input.plain 4 [1, 2, 0, 8, 0, 0, 0, 9],
    Input.plain 4 (packetInBytes 3 (arpFrame 2 hostB hostA))]

/-- Each switch keeps the first port of a host that moves. -/
theorem learned_first_movingHost :
    findPort 4 (run step movingHost initial).st.ll hostA = 1 ∧
      findPort 5 (run step movingHost initial).st.ll hostA = 7 := by
  have hrun := run_of_isOk step movingHost initial (by decide +kernel)
  have hwf : ∀ i ∈ movingHost, WellFormed 22 i.stream := by decide +kernel
  have hport := (learned_first hwf hrun).2.2.1
  exact ⟨(hport 4 hostA).trans (by decide +kernel), (hport 5 hostA).trans (by decide +kernel)⟩

end SdnController
