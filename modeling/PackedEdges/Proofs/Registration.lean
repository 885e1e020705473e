import Mathlib.Data.List.Basic
import PackedEdges.Proofs.SlotGrants
import PackedEdges.Schema.Builder

/-! Registration gives attributes their slots and leaves the rest of them alone. A list of
attributes is registered in order, with one cursor, up to the first that has slots already. -/

namespace PackedEdges

namespace Attribute

def slots (a : Attribute) : List Slot :=
  a.forward :: a.reverse.toList

def withoutSlots (a : Attribute) : Attribute :=
  { a with forward := {}, reverse := none }

/-- Number of bits that all slots of the attribute take together. -/
def storedWidth (a : Attribute) : Nat :=
  if a.twoDirections then 2 * a.bits.toNat else a.bits.toNat

/-- Everything that a registration can do when it is done. -/
theorem register_cases {a b : Attribute} {cursor last : LayoutCursor} {taken : Nat}
    (h : a.register cursor = .done (taken, b, last)) :
    a.isRegistered = false ∧ taken = a.storedWidth ∧
      ∃ forward next, cursor.Granted a.bits forward next ∧
        (a.twoDirections = false ∧ b = { a with forward } ∧ last = next ∨
          ∃ reverse, a.twoDirections = true ∧ next.Granted a.bits reverse last ∧
            b = { a with forward, reverse := some reverse }) := by
  have hfree : a.isRegistered = false := by
    cases hregistered : a.isRegistered with
    | false => rfl
    | true => simp [register, hregistered] at h
  simp only [register, hfree, Bool.false_eq_true, if_false] at h
  split at h
  · cases h
  · rename_i forward next hnext
    have hgranted := LayoutCursor.granted_of_next? hnext
    by_cases htwo : a.twoDirections = true
    · rw [if_pos htwo] at h
      split at h
      · cases h
      · rename_i reverse after hafter
        cases h
        exact ⟨hfree, by simp [storedWidth, htwo], forward, next, hgranted,
          .inr ⟨reverse, htwo, LayoutCursor.granted_of_next? hafter, rfl⟩⟩
    · rw [if_neg htwo] at h
      cases h
      exact ⟨hfree, by simp [storedWidth, htwo], forward, last, hgranted,
        .inl ⟨by simpa using htwo, rfl, rfl⟩⟩

theorem register_of_isRegistered {a : Attribute} (h : a.isRegistered = true)
    (cursor : LayoutCursor) :
    a.register cursor = .failed (.stage a.name .alreadyRegistered) := by
  simp [register, h]

theorem register_ne_failed {a : Attribute} (h : a.isRegistered = false) (cursor : LayoutCursor)
    (e : Error) : a.register cursor ≠ .failed e := by
  simp only [register, h, Bool.false_eq_true, if_false]
  cases cursor.next? a.bits with
  | none => simp
  | some forward =>
    by_cases htwo : a.twoDirections = true
    · simp only [htwo, if_true]
      cases forward.2.next? a.bits <;> simp
    · simp [htwo]

theorem exists_register {a : Attribute} (cursor : LayoutCursor) (hfree : a.isRegistered = false)
    (hpos : 1 ≤ a.bits.toNat) (hle : a.bits.toNat ≤ 32)
    (hroom : cursor.requested + a.storedWidth < UInt32.size) :
    ∃ taken b last, a.register cursor = .done (taken, b, last) := by
  have hwidth : a.bits.toNat ≤ a.storedWidth := by
    simp only [storedWidth]
    split <;> omega
  have hgrantable : cursor.Grantable a.bits.toNat := ⟨⟨hpos, hle⟩, by omega⟩
  obtain ⟨forward, next, hnext⟩ := LayoutCursor.next?_of_grantable hgrantable
  by_cases htwo : a.twoDirections = true
  · have hrequested := (LayoutCursor.granted_of_next? hnext).requested_eq
    rw [storedWidth, if_pos htwo] at hroom
    have hagain : next.Grantable a.bits.toNat := ⟨⟨hpos, hle⟩, by omega⟩
    obtain ⟨reverse, last, hlast⟩ := LayoutCursor.next?_of_grantable hagain
    simp [register, hfree, hnext, htwo, hlast]
  · simp [register, hfree, hnext, htwo]

/-- The attribute has the slots that it needs, each of its width. -/
structure Placed (a : Attribute) : Prop where
  isSome_reverse : a.reverse.isSome = a.twoDirections
  isRun {slot : Slot} : slot ∈ a.slots → slot.IsRun a.bits.toNat

theorem grants_of_register {a b : Attribute} {cursor last : LayoutCursor} {taken : Nat}
    (hreverse : a.twoDirections = false → a.reverse = none)
    (h : a.register cursor = .done (taken, b, last)) :
    b.withoutSlots = a.withoutSlots ∧ b.Placed ∧ cursor.Grants b.slots last ∧
      last.requested = cursor.requested + a.storedWidth := by
  obtain ⟨_, _, forward, next, hforward, ⟨htwo, rfl, rfl⟩ | ⟨reverse, htwo, hback, rfl⟩⟩ :=
    register_cases h
  · have hnone := hreverse htwo
    refine ⟨rfl, ⟨by simp [hnone, htwo], ?_⟩, ?_, ?_⟩
    · intro slot hs
      have he : slot = forward := by simpa [slots, hnone] using hs
      exact he ▸ hforward.isRun
    · simpa only [slots, hnone] using .cons hforward (.nil last)
    · simp [storedWidth, htwo, hforward.requested_eq]
  · refine ⟨rfl, ⟨by simp [htwo], ?_⟩, .cons hforward (.cons hback (.nil last)), ?_⟩
    · intro slot hs
      have he : slot = forward ∨ slot = reverse := by simpa [slots] using hs
      rcases he with rfl | rfl
      · exact hforward.isRun
      · exact hback.isRun
    · simp only [storedWidth, htwo, if_true, hback.requested_eq, hforward.requested_eq]
      omega

end Attribute

namespace SchemaBuilder

open Attribute

theorem registerAll_cons (cursor : LayoutCursor) (a : Attribute) (as : List Attribute) :
    registerAll cursor (a :: as) = (a.register cursor >>= fun (_, b, next) =>
      registerAll next as >>= fun (bs, last) => .done (b :: bs, last)) := rfl

theorem grants_of_registerAll {cursor last : LayoutCursor} {as bs : List Attribute}
    (hreverse : ∀ a ∈ as, a.reverse = none) (h : registerAll cursor as = .done (bs, last)) :
    bs.map withoutSlots = as.map withoutSlots ∧ (∀ b ∈ bs, b.Placed) ∧
      cursor.Grants (bs.flatMap slots) last := by
  induction as generalizing cursor bs with
  | nil =>
    cases h
    exact ⟨rfl, by simp, .nil _⟩
  | cons a as ih =>
    rw [registerAll_cons] at h
    obtain ⟨⟨taken, b, next⟩, hfirst, h⟩ := Outcome.bind_eq_done_iff.mp h
    obtain ⟨⟨bs, last'⟩, hrest, h⟩ := Outcome.bind_eq_done_iff.mp h
    cases h
    obtain ⟨hsame, hplaced, hslots, _⟩ :=
      grants_of_register (fun _ => hreverse a List.mem_cons_self) hfirst
    obtain ⟨hall, hallPlaced, hmore⟩ :=
      ih (fun c hc => hreverse c (List.mem_cons_of_mem _ hc)) hrest
    exact ⟨by rw [List.map_cons, List.map_cons, hsame, hall],
      List.forall_mem_cons.mpr ⟨hplaced, hallPlaced⟩, hslots.append hmore⟩

/-- The attributes at the front are registered as they are without the others behind them. -/
theorem registerAll_append_cases {cursor last : LayoutCursor} {as more placed : List Attribute}
    (h : registerAll cursor (as ++ more) = .done (placed, last)) :
    ∃ front next rest, registerAll cursor as = .done (front, next) ∧
      registerAll next more = .done (rest, last) ∧ placed = front ++ rest := by
  induction as generalizing cursor placed with
  | nil => exact ⟨[], cursor, placed, rfl, h, rfl⟩
  | cons a as ih =>
    rw [List.cons_append, registerAll_cons] at h
    obtain ⟨⟨taken, b, after⟩, hfirst, h⟩ := Outcome.bind_eq_done_iff.mp h
    obtain ⟨⟨bs, last'⟩, hall, h⟩ := Outcome.bind_eq_done_iff.mp h
    cases h
    obtain ⟨front, next, rest, hfront, hrest, rfl⟩ := ih hall
    exact ⟨b :: front, next, rest, by simp [registerAll_cons, hfirst, hfront], hrest, rfl⟩

theorem exists_registerAll {as : List Attribute} (cursor : LayoutCursor)
    (hfree : ∀ a ∈ as, a.isRegistered = false ∧ a.reverse = none)
    (hbits : ∀ a ∈ as, 1 ≤ a.bits.toNat ∧ a.bits.toNat ≤ 32)
    (hroom : cursor.requested + (as.map storedWidth).sum < UInt32.size) :
    ∃ bs last, registerAll cursor as = .done (bs, last) := by
  induction as generalizing cursor with
  | nil => exact ⟨[], cursor, rfl⟩
  | cons a as ih =>
    have ha := hfree a List.mem_cons_self
    have hb := hbits a List.mem_cons_self
    rw [List.map_cons, List.sum_cons] at hroom
    obtain ⟨taken, b, next, hfirst⟩ :=
      exists_register cursor ha.1 hb.1 hb.2 (by omega)
    obtain ⟨_, _, _, hrequested⟩ := grants_of_register (fun _ => ha.2) hfirst
    obtain ⟨bs, last, hrest⟩ := ih next
      (fun c hc => hfree c (List.mem_cons_of_mem _ hc))
      (fun c hc => hbits c (List.mem_cons_of_mem _ hc)) (by omega)
    exact ⟨b :: bs, last, by simp [registerAll_cons, hfirst, hrest]⟩

theorem registerAll_ne_failed {as : List Attribute} (h : ∀ a ∈ as, a.isRegistered = false)
    (cursor : LayoutCursor) (e : Error) : registerAll cursor as ≠ .failed e := by
  induction as generalizing cursor with
  | nil => simp [registerAll]
  | cons a as ih =>
    obtain ⟨ha, has⟩ := List.forall_mem_cons.mp h
    rw [registerAll_cons]
    intro hfailed
    rcases Outcome.bind_eq_failed_iff.mp hfailed with hfirst | ⟨⟨_, _, next⟩, _, hothers⟩
    · exact register_ne_failed ha cursor e hfirst
    · rcases Outcome.bind_eq_failed_iff.mp hothers with hrest | ⟨_, _, hdone⟩
      · exact ih has next hrest
      · cases hdone

theorem registerAll_of_find? {as : List Attribute} {a : Attribute} (cursor : LayoutCursor)
    (hfree : ∀ b ∈ as, b.isRegistered = false →
      b.reverse = none ∧ 1 ≤ b.bits.toNat ∧ b.bits.toNat ≤ 32)
    (hroom : cursor.requested + (as.map storedWidth).sum < UInt32.size)
    (hfind : as.find? isRegistered = some a) :
    registerAll cursor as = .failed (.stage a.name .alreadyRegistered) := by
  induction as generalizing cursor with
  | nil => simp at hfind
  | cons b as ih =>
    rw [List.map_cons, List.sum_cons] at hroom
    rw [registerAll_cons]
    cases hb : b.isRegistered with
    | true =>
      have he : b = a := by simpa [hb] using hfind
      rw [register_of_isRegistered hb, Outcome.failed_bind, he]
    | false =>
      obtain ⟨hreverse, hpos, hle⟩ := hfree b List.mem_cons_self hb
      obtain ⟨taken, placed, next, hfirst⟩ :=
        exists_register cursor hb hpos hle (by omega)
      obtain ⟨_, _, _, hrequested⟩ := grants_of_register (fun _ => hreverse) hfirst
      have hrest := ih next (fun c hc => hfree c (List.mem_cons_of_mem _ hc))
        (by omega) (by simpa [hb] using hfind)
      simp [hfirst, hrest]

end SchemaBuilder

end PackedEdges
