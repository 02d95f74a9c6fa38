import Mathlib.Data.List.Basic

/-!
# Paging through a list

A client of a paged read asks for a page, and follows the cursor that comes with it until there is
none.  `followPages` is that loop; it gives up after a number of pages, so that it is defined for
every server.  `Pager.follow` says what it collects when every page is a slice of one list, however
the cursors are written and whatever happens between the pages.
-/

universe u

variable {ε κ α : Type u}

/-- Follows cursors for at most `fuel` pages and joins the pages; `none` when there are more.
`fetch index cursor` is the page that is read as number `index`. -/
def followPages (fetch : ℕ → Option κ → Except ε (List α × Option κ)) :
    ℕ → ℕ → Option κ → Option (Except ε (List α))
  | 0, _, _ => none
  | fuel + 1, index, cursor =>
    match fetch index cursor with
    | .error e => some (.error e)
    | .ok (items, none) => some (.ok items)
    | .ok (items, some next) =>
      (followPages fetch fuel (index + 1) (some next)).map fun rest => rest.map (items ++ ·)

/-- The pages are slices of one list, `size` elements each.  `at_offset index offset cursor` says
that the cursor, read as number `index`, stands for the offset. -/
structure Pager (fetch : ℕ → Option κ → Except ε (List α × Option κ)) (items : List α) (size : ℕ)
    (at_offset : ℕ → ℕ → Option κ → Prop) : Prop where
  /-- A page that is not the last one. -/
  more : ∀ index offset cursor, at_offset index offset cursor → offset + size < items.length →
    ∃ next, fetch index cursor = .ok ((items.drop offset).take size, some next) ∧
      at_offset (index + 1) (offset + size) (some next)
  /-- The last page. -/
  last : ∀ index offset cursor, at_offset index offset cursor → items.length ≤ offset + size →
    fetch index cursor = .ok (items.drop offset, none)

/-- **Following the cursors collects the list**, from the offset of the first cursor on. -/
theorem Pager.follow {fetch : ℕ → Option κ → Except ε (List α × Option κ)} {items : List α}
    {size : ℕ} {at_offset : ℕ → ℕ → Option κ → Prop} (h : Pager fetch items size at_offset)
    (hsize : 0 < size) {fuel index offset : ℕ} {cursor : Option κ}
    (hcursor : at_offset index offset cursor) (hfuel : items.length < offset + fuel)
    (hoffset : offset ≤ items.length) :
    followPages fetch fuel index cursor = some (.ok (items.drop offset)) := by
  induction fuel generalizing index offset cursor with
  | zero => omega
  | succ fuel ih =>
    rw [followPages]
    by_cases hmore : offset + size < items.length
    · obtain ⟨next, hfetch, hnext⟩ := h.more index offset cursor hcursor hmore
      have hrest := ih hnext (by omega) (by omega)
      rw [hfetch]
      dsimp only
      rw [hrest, ← List.drop_drop]
      exact congrArg (fun rest => some (Except.ok rest)) (List.take_append_drop size _)
    · rw [h.last index offset cursor hcursor (by omega)]
