import TraceDB.Query.Text

/-!
# The cache of prepared corpora

A handle keeps the prepared corpora of its last queries (`LexicalCorpusCache`), at most
`DEFAULT_LEXICAL_CACHE_CAPACITY` of them; the one that was used least recently goes first.

`mem_insert` : every entry of the cache was put there under its key.
-/

namespace TraceDB

/-- `MIN_LEXICAL_CACHE_DOCUMENTS`. -/
def minLexicalCacheDocuments : ℕ := 2048

/-- `DEFAULT_LEXICAL_CACHE_CAPACITY`. -/
def defaultLexicalCacheCapacity : ℕ := 64

/-- `LexicalCacheKey`. -/
structure LexicalCacheKey where
  table : String
  tenantId : String
  readEpoch : ℕ
  manifestGeneration : ℕ
  scalarEq : String
  textColumns : List String
  deriving DecidableEq, Ord

/-- `LexicalCacheEntry`, with its key. -/
structure LexicalCacheEntry (S : Type) where
  key : LexicalCacheKey
  corpus : PreparedTextCorpus S
  lastUsed : ℕ

/-- `LexicalCorpusCache`. -/
structure LexicalCorpusCache (S : Type) where
  entries : List (LexicalCacheEntry S)
  tick : ℕ

namespace LexicalCorpusCache

variable {S : Type} (cache : LexicalCorpusCache S)

/-- `LexicalCorpusCache::default`. -/
def empty : LexicalCorpusCache S := ⟨[], 0⟩

/-- `next_tick`. -/
def nextTick : ℕ := min (cache.tick + 1) (2 ^ 64 - 1)

/-- `get`. -/
def get (key : LexicalCacheKey) : Option (PreparedTextCorpus S) × LexicalCorpusCache S :=
  match cache.entries.find? fun entry => entry.key = key with
  | none => (none, ⟨cache.entries, cache.nextTick⟩)
  | some entry =>
    (some entry.corpus,
      ⟨cache.entries.map fun e => if e.key = key then { e with lastUsed := cache.nextTick } else e,
        cache.nextTick⟩)

/-- Whether an entry goes before another in `evict_lru`. -/
def older (left right : LexicalCacheEntry S) : Bool :=
  ((compare left.lastUsed right.lastUsed).then (compare left.key right.key)).isLE

/-- `evict_lru`. -/
def evictLru : ℕ → List (LexicalCacheEntry S) → List (LexicalCacheEntry S)
  | 0, entries => entries
  | excess + 1, entries =>
    if entries.length ≤ defaultLexicalCacheCapacity then entries
    else
      match entries.mergeSort older with
      | [] => entries
      | oldest :: _ => evictLru excess (entries.filter fun entry => entry.key ≠ oldest.key)

/-- `insert`. -/
def insert (key : LexicalCacheKey) (corpus : PreparedTextCorpus S) : LexicalCorpusCache S :=
  let entries := cache.entries.filter (fun entry => entry.key ≠ key) ++
    [⟨key, corpus, cache.nextTick⟩]
  ⟨evictLru entries.length entries, cache.nextTick⟩

theorem mem_evictLru {excess : ℕ} {entries : List (LexicalCacheEntry S)}
    {entry : LexicalCacheEntry S} (h : entry ∈ evictLru excess entries) : entry ∈ entries := by
  induction excess generalizing entries with
  | zero => exact h
  | succ excess ih =>
    rw [evictLru] at h
    split_ifs at h
    · exact h
    · split at h
      · exact h
      · exact List.mem_of_mem_filter (ih h)

/-- An entry after `insert` is the new one or an old one. -/
theorem mem_insert {key : LexicalCacheKey} {corpus : PreparedTextCorpus S}
    {entry : LexicalCacheEntry S} (h : entry ∈ (cache.insert key corpus).entries) :
    (entry.key = key ∧ entry.corpus = corpus) ∨ entry ∈ cache.entries := by
  rcases List.mem_append.1 (mem_evictLru h) with h | h
  · exact .inr (List.mem_of_mem_filter h)
  · obtain rfl := List.mem_singleton.1 h
    exact .inl ⟨rfl, rfl⟩

/-- `get` finds an entry under the key. -/
theorem get_eq_some {key : LexicalCacheKey} {corpus : PreparedTextCorpus S}
    (h : (cache.get key).1 = some corpus) :
    ∃ entry ∈ cache.entries, entry.key = key ∧ entry.corpus = corpus := by
  unfold get at h
  split at h
  · cases h
  · rename_i entry hfind
    exact ⟨entry, List.mem_of_find?_eq_some hfind, of_decide_eq_true (List.find?_some hfind :),
      Option.some.inj h⟩

/-- `get` after the first `insert`. -/
theorem get_insert_nil (tick : ℕ) (key : LexicalCacheKey) (corpus : PreparedTextCorpus S) :
    ((insert ⟨[], tick⟩ key corpus).get key).1 = some corpus := by
  simp [get, insert, evictLru, defaultLexicalCacheCapacity]

/-- `get` changes when entries were used, and nothing else. -/
theorem mem_get {key : LexicalCacheKey} {entry : LexicalCacheEntry S}
    (h : entry ∈ (cache.get key).2.entries) :
    ∃ old ∈ cache.entries, old.key = entry.key ∧ old.corpus = entry.corpus := by
  unfold get at h
  split at h
  · exact ⟨entry, h, rfl, rfl⟩
  · obtain ⟨old, hold, rfl⟩ := List.mem_map.1 h
    refine ⟨old, hold, ?_⟩
    split_ifs
    · exact ⟨rfl, rfl⟩
    · exact ⟨rfl, rfl⟩

end LexicalCorpusCache

end TraceDB
