import Mathlib.Data.Set.Insert

/-!
# An object with versions that are never used again

A cell holds at most one object.  Every object that is put gets a version that the cell has not used
before, also when an object was deleted in between.  A client reads the version in one request and
the object in another, and writes on the condition that the version is still the one it read.

* `Versioned.Pinned` : what a client may conclude from its two reads.  As long as the version is the
  one it read first, the object is the one it read second.
* `Versioned.Pinned.put`, `Versioned.Pinned.delete` : whatever others do in between, this stays
  true.
-/

universe u v

/-- A cell: the object with its version, and the versions used so far. -/
@[ext] structure Versioned (ε : Type u) (α : Type v) where
  object : Option (ε × α)
  used : Set ε
  known : ∀ version a, object = some (version, a) → version ∈ used

namespace Versioned

variable {ε : Type u} {α : Type v} {c : Versioned ε α} {version version' : ε} {a : α}
  {P : α → Prop}

/-- A cell that never held an object. -/
def empty : Versioned ε α := ⟨none, ∅, fun _ _ h => by cases h⟩

/-- The cell after an object is put. -/
def put (c : Versioned ε α) (version : ε) (a : α) : Versioned ε α where
  object := some (version, a)
  used := insert version c.used
  known version' a' h := by
    obtain ⟨rfl, -⟩ := Prod.mk.inj (Option.some.inj h)
    exact Set.mem_insert version c.used

/-- The cell after its object is deleted. -/
def delete (c : Versioned ε α) : Versioned ε α where
  object := none
  used := c.used
  known _ _ h := by cases h

/-- The version of the object. -/
def version? (c : Versioned ε α) : Option ε := c.object.map Prod.fst

/-- The object, if there is one. -/
def value? (c : Versioned ε α) : Option α := c.object.map Prod.snd

@[simp] theorem object_put : (c.put version a).object = some (version, a) := rfl

@[simp] theorem object_delete : c.delete.object = none := rfl

theorem mem_used_of_version? (h : c.version? = some version) : version ∈ c.used := by
  obtain ⟨⟨_, a⟩, hobject, rfl⟩ := Option.map_eq_some_iff.1 h
  exact c.known _ a hobject

theorem mem_used_put (h : version ∈ c.used) : version ∈ (c.put version' a).used :=
  Set.mem_insert_of_mem version' h

/-- The version was used, and the object that has it, if it is there, satisfies `P`. -/
def Pinned (c : Versioned ε α) (version : ε) (P : α → Prop) : Prop :=
  version ∈ c.used ∧ ∀ a, c.object = some (version, a) → P a

/-- Two reads: the version before, the object now. -/
theorem pinned_of_value? (hversion : version ∈ c.used) (hvalue : c.value? = some a) (ha : P a) :
    c.Pinned version P := by
  refine ⟨hversion, fun a' hobject => ?_⟩
  rw [value?, hobject] at hvalue
  rwa [← Option.some.inj hvalue] at ha

/-- A new object has another version. -/
theorem Pinned.put (h : c.Pinned version P) (hnew : version' ∉ c.used) (a : α) :
    (c.put version' a).Pinned version P := by
  refine ⟨mem_used_put h.1, fun a' hobject => ?_⟩
  obtain ⟨rfl, -⟩ := Prod.mk.inj (Option.some.inj hobject)
  exact absurd h.1 hnew

theorem Pinned.delete (h : c.Pinned version P) : c.delete.Pinned version P :=
  ⟨h.1, fun _ hobject => by cases hobject⟩

/-- A write on the condition of the version meets an object that satisfies `P`. -/
theorem Pinned.of_version? (h : c.Pinned version P) (hversion : c.version? = some version) :
    ∃ a, c.object = some (version, a) ∧ P a := by
  obtain ⟨⟨_, a⟩, hobject, rfl⟩ := Option.map_eq_some_iff.1 hversion
  exact ⟨a, hobject, h.2 a hobject⟩

theorem Pinned.imp {Q : α → Prop} (h : c.Pinned version P) (himp : ∀ a, P a → Q a) :
    c.Pinned version Q :=
  ⟨h.1, fun a hobject => himp a (h.2 a hobject)⟩

end Versioned
