import TraceDB.Data.Runs

/-!
# Copies of a handle

Several handles share files, and each has a memory of its own.  A handle that is copied leaves two
with the same memory, and the calls on them come in any order.  Where a call on a handle whose
memory is behind is refused, the copies are as good as a single handle.

* `Fenced` : what is asked of the calls.  Memories have a version, and a call on a current memory
  keeps it or takes it to a later version.
* `Fenced.linear` : in every order of calls on the copies, the files and the replies are those of a
  single handle that makes some of the calls.
-/

universe u

/-- Files that handles share, and what a call does to them and to the memory of its handle; `none`
is a call that is refused. -/
structure SharedCalls (Files Memory Call Reply : Type u) where
  call : Files → Memory → Call → Option Reply × Files × Memory

variable {Files Memory Call Reply : Type u}

/-- Files with their handles, and the calls that were acknowledged, in order. -/
structure Copies (Files Memory Call Reply : Type u) where
  files : Files
  handles : List Memory
  acknowledged : List (Call × Reply)

inductive CopyEvent (Call : Type u) where
  | copy (handle : ℕ)
  | drop (handle : ℕ)
  | call (handle : ℕ) (call : Call)

namespace CopyEvent

/-- The calls of a trace. -/
def calls (trace : List (CopyEvent Call)) : List Call :=
  trace.filterMap fun event =>
    match event with
    | .call _ made => some made
    | _ => none

end CopyEvent

namespace Copies

variable (S : SharedCalls Files Memory Call Reply)

/-- A call on a handle. -/
def after (c : Copies Files Memory Call Reply) (handle : ℕ) (memory : Memory) (call : Call) :
    Copies Files Memory Call Reply :=
  let out := S.call c.files memory call
  { files := out.2.1
    handles := c.handles.set handle out.2.2
    acknowledged := c.acknowledged ++ (out.1.map fun reply => (call, reply)).toList }

/-- What happens at an event; one on a handle that is not there is nothing. -/
def next (c : Copies Files Memory Call Reply) : CopyEvent Call → Copies Files Memory Call Reply
  | .copy handle => { c with handles := c.handles ++ c.handles[handle]?.toList }
  | .drop handle => { c with handles := c.handles.eraseIdx handle }
  | .call handle call =>
    match c.handles[handle]? with
    | none => c
    | some memory => c.after S handle memory call

/-- One handle. -/
def single (files : Files) (memory : Memory) : Copies Files Memory Call Reply :=
  ⟨files, [memory], []⟩

/-- One handle that makes calls. -/
def alone (files : Files) (memory : Memory) (calls : List Call) : Copies Files Memory Call Reply :=
  (calls.map (CopyEvent.call 0)).foldl (next S) (single files memory)

/-- The runs of copies. -/
abbrev CopyRuns (files : Files) (memory : Memory) :=
  Runs (fun c event c' => c' = next S c event) (fun _ _ => True) (single files memory)

end Copies

/-- Calls on memories that are behind are refused. -/
structure Fenced (S : SharedCalls Files Memory Call Reply) (Current : Files → Memory → Prop)
    (version : Memory → ℕ) : Prop where
  current : ∀ {files memory} call, Current files memory →
    Current (S.call files memory call).2.1 (S.call files memory call).2.2
  later : ∀ {files memory} call, Current files memory →
    (S.call files memory call).2.2 = memory ∨
    version memory < version (S.call files memory call).2.2
  refused : ∀ {files memory lead} call, Current files lead → version memory < version lead →
    S.call files memory call = (none, files, memory)

namespace Fenced

variable {S : SharedCalls Files Memory Call Reply} {Current : Files → Memory → Prop}
  {version : Memory → ℕ}

/-- Some copies and a single handle: the files and the replies are the same, and the memories are
its memory or are behind. -/
structure Follows (Current : Files → Memory → Prop) (version : Memory → ℕ)
    (c : Copies Files Memory Call Reply) (lead : Memory) (s : Copies Files Memory Call Reply) :
      Prop where
  alone : s.handles = [lead]
  files : c.files = s.files
  acknowledged : c.acknowledged = s.acknowledged
  current : Current c.files lead
  handles : ∀ memory ∈ c.handles, memory = lead ∨ version memory < version lead

variable {c s : Copies Files Memory Call Reply} {lead : Memory}

/-- A call on the copies is a call of the single handle, or is refused. -/
theorem Follows.after (hS : Fenced S Current version)
    (h : Follows Current version c lead s) {handle : ℕ} {memory : Memory}
    (hmemory : memory ∈ c.handles) (call : Call) :
    Follows Current version (c.after S handle memory call) lead s ∧ memory ≠ lead ∨
      ∃ lead', Follows Current version (c.after S handle memory call)
        lead' (s.next S (.call 0 call)) := by
  rcases h.handles memory hmemory with rfl | hbehind
  · right
    have hnext : s.next S (.call 0 call) = s.after S 0 memory call := by
      rw [Copies.next, h.alone]
      rfl
    refine ⟨(S.call c.files memory call).2.2, ?_, ?_, ?_, hS.current call h.current, ?_⟩
    · rw [hnext, Copies.after, h.alone, h.files]
      rfl
    · rw [hnext, Copies.after, Copies.after, h.files]
    · rw [hnext, Copies.after, Copies.after, h.files, h.acknowledged]
    · intro other hother
      rcases List.mem_or_eq_of_mem_set hother with hother | rfl
      · rcases hS.later call h.current with hsame | hlater
        · rw [hsame]
          exact h.handles other hother
        · rcases h.handles other hother with rfl | hbehind
          · exact .inr hlater
          · exact .inr (Nat.lt_trans hbehind hlater)
      · exact .inl rfl
  · left
    have hrefused := hS.refused call h.current hbehind
    refine ⟨⟨h.alone, ?_, ?_, ?_, ?_⟩, ?_⟩
    · rw [Copies.after, hrefused]
      exact h.files
    · rw [Copies.after, hrefused]
      simpa using h.acknowledged
    · rw [Copies.after, hrefused]
      exact h.current
    · intro other hother
      rw [Copies.after, hrefused] at hother
      rcases List.mem_or_eq_of_mem_set hother with hother | rfl
      · exact h.handles other hother
      · exact .inr hbehind
    · rintro rfl
      exact Nat.lt_irrefl _ hbehind

/-- What every event keeps. -/
theorem Follows.next (hS : Fenced S Current version) (h : Follows Current version c lead s)
    (event : CopyEvent Call) :
    ∃ lead', ∃ calls : List Call, calls.Sublist (CopyEvent.calls [event]) ∧
      Follows Current version (c.next S event) lead'
        ((calls.map (CopyEvent.call 0)).foldl (Copies.next S) s) := by
  cases event with
  | copy handle =>
    refine ⟨lead, [], List.nil_sublist _, h.alone, h.files, h.acknowledged, h.current,
      fun memory hmemory => ?_⟩
    rcases List.mem_append.1 hmemory with hmemory | hmemory
    · exact h.handles memory hmemory
    · exact h.handles memory (List.mem_of_getElem? (Option.mem_toList.1 hmemory))
  | drop handle =>
    exact ⟨lead, [], List.nil_sublist _, h.alone, h.files, h.acknowledged, h.current,
      fun memory hmemory =>
      h.handles memory (List.mem_of_mem_eraseIdx hmemory)⟩
  | call handle call =>
    cases hhandle : c.handles[handle]? with
    | none =>
      rw [Copies.next, hhandle]
      exact ⟨lead, [], List.nil_sublist _, h⟩
    | some memory =>
      rw [Copies.next, hhandle]
      rcases h.after hS (List.mem_of_getElem? hhandle) call with ⟨hfollows, -⟩ | ⟨lead', hfollows⟩
      · exact ⟨lead, [], List.nil_sublist _, hfollows⟩
      · exact ⟨lead', [call], List.Sublist.refl _, hfollows⟩

/-- **Copies are as good as a single handle.**  The files and the replies are those of one handle
that makes, in order, some of the calls; a copy has the memory of that handle, or is behind it. -/
theorem linear (hS : Fenced S Current version) {files : Files} {memory : Memory}
    (hcurrent : Current files memory) {trace : List (CopyEvent Call)}
    (hrun : Copies.CopyRuns S files memory trace c) :
    ∃ lead calls, calls.Sublist (CopyEvent.calls trace) ∧
      Follows Current version c lead (Copies.alone S files memory calls) := by
  refine hrun.invariant (I := fun trace c => ∃ lead calls, calls.Sublist (CopyEvent.calls trace) ∧
    Follows Current version c lead (Copies.alone S files memory calls)) ?_ ?_
  · exact ⟨memory, [], List.nil_sublist _, rfl, rfl, rfl, hcurrent, fun other hother =>
      .inl (List.mem_singleton.1 hother)⟩
  · rintro trace c event c' - rfl ⟨lead, calls, hsub, hfollows⟩
    obtain ⟨lead', more, hmore, hnext⟩ := hfollows.next hS event
    refine ⟨lead', calls ++ more, ?_, ?_⟩
    · rw [CopyEvent.calls, List.filterMap_append]
      exact hsub.append hmore
    · rw [Copies.alone, List.map_append, List.foldl_append]
      exact hnext

end Fenced
