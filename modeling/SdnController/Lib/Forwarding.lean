import Mathlib.Data.List.Chain

/-!
# Forwarding along a path

A network of nodes with ports, some of which are linked to a port of another node. Every node has
one port at most out of which it sends what comes in at a port, and does not send it back there.
`exit` follows this from node to node, until it leaves the network at a port that is not linked.

A path is a list of nodes with the ports at which it goes in and out (`Hop`). Where each node of a
path sends what comes in at one of these ports out of the other, what enters at its beginning leaves
at its end (`Path.exit`), and a path is one in both directions (`Path.reverse`).
-/

namespace Forwarding

variable {ν π : Type}

/-- The port of another node that a port is linked to. -/
abbrev Links (ν π : Type) := ν → π → Option (ν × π)

/-- Where what enters at a port leaves the network, if it does within `fuel` nodes. -/
def exit [DecidableEq π] (links : Links ν π) (out : ν → π → Option π) :
    ℕ → ν × π → Option (ν × π)
  | 0, _ => none
  | fuel + 1, (node, port) =>
    (out node port).bind fun port' =>
      if port' = port then none
      else
        match links node port' with
        | none => some (node, port')
        | some next => exit links out fuel next

/-- A node of a path, with its ports in the direction of the two ends. -/
structure Hop (ν π : Type) where
  node : ν
  near : π
  far : π

/-- The node in the other direction. -/
def Hop.flip (h : Hop ν π) : Hop ν π := ⟨h.node, h.far, h.near⟩

/-- Two nodes are linked, in both directions. -/
def Joined (links : Links ν π) (h h' : Hop ν π) : Prop :=
  links h.node h.far = some (h'.node, h'.near) ∧ links h'.node h'.near = some (h.node, h.far)

/-- Each node is linked to the next one, and the ends are not linked. -/
structure Path (links : Links ν π) (hops : List (Hop ν π)) : Prop where
  joined : hops.IsChain (Joined links)
  first : ∀ h ∈ hops.head?, links h.node h.near = none
  last : ∀ h ∈ hops.getLast?, links h.node h.far = none
  distinct : ∀ h ∈ hops, h.near ≠ h.far

section Paths

variable {links : Links ν π} {hops : List (Hop ν π)}

theorem Joined.flip {h h' : Hop ν π} (hj : Joined links h h') : Joined links h'.flip h.flip :=
  ⟨hj.2, hj.1⟩

/-- A path leads back. -/
theorem Path.reverse (h : Path links hops) : Path links (hops.reverse.map Hop.flip) where
  joined := by
    have hback : hops.reverse.IsChain fun k k' => Joined links k' k :=
      List.isChain_reverse.mpr h.joined
    exact List.isChain_map_of_isChain Hop.flip (fun _ _ hj => Joined.flip hj) hback
  first := by
    intro k hk
    rw [List.head?_map, List.head?_reverse] at hk
    obtain ⟨k', hk', rfl⟩ := Option.map_eq_some_iff.mp hk
    exact h.last k' hk'
  last := by
    intro k hk
    rw [List.getLast?_map, List.getLast?_reverse] at hk
    obtain ⟨k', hk', rfl⟩ := Option.map_eq_some_iff.mp hk
    exact h.first k' hk'
  distinct := by
    intro k hk
    obtain ⟨k', hk', rfl⟩ := List.mem_map.mp hk
    exact (h.distinct k' (List.mem_reverse.mp hk')).symm

/-- What enters at the beginning of a path leaves at its end, when each node sends it on along the
path. -/
theorem Path.exit [DecidableEq π] {out : ν → π → Option π} (h : Path links hops)
    (hout : ∀ k ∈ hops, out k.node k.near = some k.far) {a b : Hop ν π} (ha : a ∈ hops.head?)
    (hb : b ∈ hops.getLast?) :
    Forwarding.exit links out hops.length (a.node, a.near) = some (b.node, b.far) := by
  obtain ⟨hjoined, -, hlast, hdistinct⟩ := h
  induction hops generalizing a with
  | nil => exact absurd ha nofun
  | cons k hops ih =>
    obtain rfl : k = a := Option.some.inj ha
    obtain ⟨hk, houts⟩ := List.forall_mem_cons.mp hout
    obtain ⟨hne, hnes⟩ := List.forall_mem_cons.mp hdistinct
    rw [List.length_cons, Forwarding.exit, hk, Option.bind_some, if_neg hne.symm]
    cases hops with
    | nil =>
      obtain rfl : k = b := Option.some.inj hb
      rw [hlast k rfl]
    | cons k' hops =>
      obtain ⟨hlink, hrest⟩ := List.isChain_cons_cons.mp hjoined
      rw [hlink.1]
      exact ih houts rfl hb hrest hlast hnes

end Paths

end Forwarding
