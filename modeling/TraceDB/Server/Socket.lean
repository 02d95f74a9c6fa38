import TraceDB.Data.Streams
import TraceDB.Lang.Words
import TraceDB.Server.Framing

/-!
# Requests from a socket

A request comes in reads of up to 8192 bytes, split where the network likes.  Its head is over at
the first empty line; an empty line that ends in `\r\n` counts before one that ends in `\n`, among
what has been read so far.

* `SplitsAlike` : bytes whose head is over at the same place, however much of them has been read
  when it is found.
* `request_of_any_splits` : then the request depends on the bytes alone.
* `written_request_read` : the text that the other server makes of a request, when it is sent, is
  read as it is.
-/

namespace TraceDB

namespace Text

theorem lines_single {line : String} (hne : line ≠ "") (h : '\n' ∉ line.toList) :
    lines line = [line] := by
  have hsplit : ∀ chars : List Char, chars ≠ [] → '\n' ∉ chars →
      splitInclusive chars = [chars] := by
    intro chars hchars hends
    induction chars with
    | nil => exact absurd rfl hchars
    | cons c chars ih =>
      rw [List.mem_cons, not_or] at hends
      rw [splitInclusive, if_neg (Ne.symm hends.1)]
      cases chars with
      | nil => rfl
      | cons d chars => rw [ih (List.cons_ne_nil _ _) hends.2]
  have hlast : line.toList.getLast? ≠ some '\n' := fun hlast => h (List.mem_of_getLast? hlast)
  rw [lines, hsplit line.toList (by simpa using hne) h, List.map_singleton,
    stripLineEnding, if_neg hlast, String.ofList_toList]

theorem toList_of_splitOnce {separator : Char} {s before after : String}
    (h : splitOnce separator s = some (before, after)) :
      before.toList = s.toList.takeWhile (· ≠ separator) := by
  rw [splitOnce] at h
  split at h
  · cases h
  · obtain ⟨rfl, -⟩ := Prod.mk.inj (Option.some.inj h)
    exact String.toList_ofList

end Text

/-! ### Reading -/

/-- `io::Error`. -/
structure IoError where
  kind : IoErrorKind
  message : String

/-- What a socket gives: the results of its reads, and the error of the read after them.  Without
one it is at its end, where a read gives nothing. -/
structure Socket where
  reads : List Bytes
  failure : Option IoError

/-- An empty line that ends in `\r\n`, and the end of the line before it. -/
def crlfLineEnds : Bytes := [13, 10, 13, 10]

/-- The same with `\n`. -/
def lfLineEnds : Bytes := [10, 10]

/-- `find_header_end`. -/
def findHeaderEnd (buffer : Bytes) : Option (ℕ × ℕ) :=
  ((windowPosition crlfLineEnds buffer).map fun pos => (pos, 4)).or
    ((windowPosition lfLineEnds buffer).map fun pos => (pos, 2))

/-- The error of a read that was to bring more. -/
def readError (failure : Option IoError) (message : String) :
    IoError := failure.getD ⟨.unexpectedEof, message⟩

/-- The first loop of `read_request`: what has been read, where the head is over in it, and the
reads that are left. -/
def Socket.readHead (failure : Option IoError) :
    Bytes → List Bytes → Except IoError (Bytes × (ℕ × ℕ) × List Bytes)
  | _, [] => .error (readError failure "connection closed before headers")
  | buffer, read :: reads =>
    if read = [] then .error ⟨.unexpectedEof, "connection closed before headers"⟩
    else
      let buffer := buffer ++ read
      match findHeaderEnd buffer with
      | some headerEnd => .ok (buffer, headerEnd, reads)
      | none =>
        if 1024 * 1024 < buffer.length then .error ⟨.invalidData, "request headers exceed 1MiB"⟩
        else Socket.readHead failure buffer reads

/-- The second loop. -/
def Socket.readBody (failure : Option IoError) (expectedLen : ℕ) :
    Bytes → List Bytes → Except IoError Bytes
  | buffer, [] =>
    if buffer.length < expectedLen then .error
      (readError failure "connection closed before full body") else .ok buffer
  | buffer, read :: reads =>
    if buffer.length < expectedLen then
      if read = [] then .error ⟨.unexpectedEof, "connection closed before full body"⟩
      else Socket.readBody failure expectedLen (buffer ++ read) reads
    else .ok buffer

/-- What `read_request` makes of a line of the head. -/
def contentLengthOfLine (line : String) : Option ℕ :=
  match Text.splitOnce ':' line with
  | none => none
  | some (name, value) =>
    if eqIgnoreAsciiCase name.toList "content-length".toList = true then parseUsize
      (Text.trim value) else none

/-- The length that the head announces. -/
def contentLength (headers : String) :
    ℕ := ((Text.lines headers).findSome? contentLengthOfLine).getD 0

/-- The checks of `read_request` between its loops: how many bytes the request has. -/
def expectedLength (headers : String) (bodyStart : ℕ) : Except IoError ℕ :=
  let length := contentLength headers
  if 16 * 1024 * 1024 < length then .error ⟨.invalidData, "request body exceeds 16MiB"⟩
  else if usizeMax < bodyStart + length then .error ⟨.invalidData, "request too large"⟩
  else .ok (bodyStart + length)

/-- `read_request`. -/
def Socket.readRequest (socket : Socket) : Except IoError String := do
  let (buffer, headerEnd, reads) ← Socket.readHead socket.failure [] socket.reads
  let expectedLen ← expectedLength (fromUtf8Lossy (buffer.take headerEnd.1))
      (headerEnd.1 + headerEnd.2)
  let buffer ← Socket.readBody socket.failure expectedLen buffer reads
  .ok (fromUtf8Lossy (buffer.take expectedLen))

/-! ### The request in a stream -/

/-- The reads bring some bytes, in some order of splits. -/
structure Socket.Delivers (socket : Socket) (bytes : Bytes) : Prop where
  flatten : socket.reads.flatten = bytes
  read : ∀ read ∈ socket.reads, read ≠ [] ∧ read.length ≤ 8192

/-- The request that some bytes begin with, after which the socket fails or is at its end. -/
def requestOfBytes (failure : Option IoError) (bytes : Bytes) : Except IoError String :=
  match findHeaderEnd bytes with
  | none =>
    if 1024 * 1024 < bytes.length then .error ⟨.invalidData, "request headers exceed 1MiB"⟩
    else .error (readError failure "connection closed before headers")
  | some headerEnd => do
    let expectedLen ← expectedLength (fromUtf8Lossy (bytes.take headerEnd.1))
        (headerEnd.1 + headerEnd.2)
    if expectedLen ≤ bytes.length then .ok (fromUtf8Lossy (bytes.take expectedLen))
    else .error (readError failure "connection closed before full body")

/-- The head is over within its limit, and not at an empty line that ends in `\n` when one that ends
in `\r\n` comes later. -/
structure SplitsAlike (bytes : Bytes) : Prop where
  first : ∀ i j, windowPosition crlfLineEnds bytes = some i →
    windowPosition lfLineEnds bytes = some j → i + 2 ≤ j
  limit : ∀ i n, findHeaderEnd bytes = some (i, n) → i + n ≤ 1024 * 1024

section Head

variable {bytes buffer : Bytes}

theorem findHeaderEnd_le {i n : ℕ} (h : findHeaderEnd buffer = some (i, n)) :
    i + n ≤ buffer.length := by
  rw [findHeaderEnd, Option.or_eq_some_iff] at h
  rcases h with h | ⟨-, h⟩
  · obtain ⟨pos, hpos, hsame⟩ := Option.map_eq_some_iff.1 h
    obtain ⟨rfl, rfl⟩ := Prod.mk.inj hsame
    exact windowPosition_le hpos
  · obtain ⟨pos, hpos, hsame⟩ := Option.map_eq_some_iff.1 h
    obtain ⟨rfl, rfl⟩ := Prod.mk.inj hsame
    exact windowPosition_le hpos

theorem findHeaderEnd_eq_none_iff :
    findHeaderEnd buffer = none ↔
      windowPosition crlfLineEnds buffer = none ∧ windowPosition lfLineEnds buffer = none := by
  simp only [findHeaderEnd, Option.or_eq_none_iff, Option.map_eq_none_iff]

/-- Where nothing is found in some bytes, nothing is found in those that they begin with. -/
theorem windowPosition_eq_none_of_append {needle more : Bytes}
    (h : windowPosition needle (buffer ++ more) = none) : windowPosition needle buffer = none := by
  cases hfound : windowPosition needle buffer with
  | none => rfl
  | some i =>
    rw [windowPosition_append hfound] at h
    cases h

theorem findHeaderEnd_eq_none_of_append {more : Bytes} (h : findHeaderEnd (buffer ++ more) = none) :
    findHeaderEnd buffer = none := by
  rw [findHeaderEnd_eq_none_iff] at h ⊢
  exact ⟨windowPosition_eq_none_of_append h.1, windowPosition_eq_none_of_append h.2⟩

/-- As long as nothing is found, the end of the head has not been read. -/
theorem lt_of_findHeaderEnd_eq_none {more : Bytes} {i n : ℕ}
    (h : findHeaderEnd (buffer ++ more) = some (i, n)) (hnone : findHeaderEnd buffer = none) :
      buffer.length < i + n := by
  by_contra hle
  rw [not_lt] at hle
  rw [findHeaderEnd_eq_none_iff] at hnone
  rw [findHeaderEnd, Option.or_eq_some_iff] at h
  rcases h with h | ⟨-, h⟩
  · obtain ⟨pos, hpos, hsame⟩ := Option.map_eq_some_iff.1 h
    obtain ⟨rfl, rfl⟩ := Prod.mk.inj hsame
    rw [windowPosition_of_append hpos hle (by decide)] at hnone
    cases hnone.1
  · obtain ⟨pos, hpos, hsame⟩ := Option.map_eq_some_iff.1 h
    obtain ⟨rfl, rfl⟩ := Prod.mk.inj hsame
    rw [windowPosition_of_append hpos hle (by decide)] at hnone
    cases hnone.2

/-- **The end of the head** is not found yet, or is found in its place. -/
theorem SplitsAlike.found {more : Bytes} (h : SplitsAlike (buffer ++ more)) :
    findHeaderEnd buffer = none ∨ findHeaderEnd buffer = findHeaderEnd (buffer ++ more) := by
  cases hcrlf : windowPosition crlfLineEnds (buffer ++ more) with
  | none =>
    have hcrlf' := windowPosition_eq_none_of_append hcrlf
    cases hlf : windowPosition lfLineEnds buffer with
    | none => exact .inl (findHeaderEnd_eq_none_iff.2 ⟨hcrlf', hlf⟩)
    | some j =>
      refine .inr ?_
      rw [findHeaderEnd, findHeaderEnd, hcrlf, hcrlf', hlf, windowPosition_append hlf more]
  | some i =>
    by_cases hle : i + crlfLineEnds.length ≤ buffer.length
    · refine .inr ?_
      rw [findHeaderEnd, findHeaderEnd, hcrlf, windowPosition_of_append hcrlf hle (by decide)]
      rfl
    · -- The end is not there yet, so that an empty line that ends in a line feed is not either.
      refine .inl (findHeaderEnd_eq_none_iff.2 ⟨?_, ?_⟩)
      · cases hfound : windowPosition crlfLineEnds buffer with
        | none => rfl
        | some k =>
          obtain rfl := Option.some.inj (hcrlf.symm.trans (windowPosition_append hfound more))
          exact absurd (windowPosition_le hfound) hle
      · cases hfound : windowPosition lfLineEnds buffer with
        | none => rfl
        | some j =>
          have hfirst := h.first i j hcrlf (windowPosition_append hfound more)
          have hread : j + 2 ≤ buffer.length := windowPosition_le hfound
          have hunread : ¬ i + 4 ≤ buffer.length := hle
          omega

end Head

/-! ### The loops -/

namespace Socket

variable {bytes buffer : Bytes} {reads : List Bytes} (failure : Option IoError)

theorem readHead_of_some (halike : SplitsAlike bytes) {headerEnd : ℕ × ℕ}
    (hend : findHeaderEnd bytes = some headerEnd) (hsame : buffer ++ reads.flatten = bytes)
    (hreads : ∀ read ∈ reads, read ≠ []) (hnone : findHeaderEnd buffer = none) :
    ∃ buffer' reads', readHead failure buffer reads = .ok (buffer', headerEnd, reads') ∧
      buffer' ++ reads'.flatten = bytes ∧ (∀ read ∈ reads', read ≠ []) ∧
      headerEnd.1 + headerEnd.2 ≤ buffer'.length := by
  induction reads generalizing buffer with
  | nil =>
    rw [List.flatten_nil, List.append_nil] at hsame
    rw [hsame, hend] at hnone
    cases hnone
  | cons read reads ih =>
    rw [List.forall_mem_cons] at hreads
    rw [List.flatten_cons, ← List.append_assoc] at hsame
    rw [readHead, if_neg hreads.1]
    rcases (hsame ▸ halike).found with hnext | hnext
    · have hlt : (buffer ++ read).length < headerEnd.1 + headerEnd.2 :=
        lt_of_findHeaderEnd_eq_none (hsame ▸ hend) hnext
      have hlimit := halike.limit headerEnd.1 headerEnd.2 hend
      simp only [hnext]
      rw [if_neg (by omega)]
      exact ih hsame hreads.2 hnext
    · rw [hsame, hend] at hnext
      simp only [hnext]
      exact ⟨buffer ++ read, reads, rfl, hsame, hreads.2, findHeaderEnd_le hnext⟩

theorem readHead_of_none (hend : findHeaderEnd bytes = none)
    (hsame : buffer ++ reads.flatten = bytes) (hreads : ∀ read ∈ reads, read ≠ [])
    (hshort : buffer.length ≤ 1024 * 1024) :
    readHead failure buffer reads = .error
      (if 1024 * 1024 < bytes.length then ⟨.invalidData, "request headers exceed 1MiB"⟩
      else readError failure "connection closed before headers") := by
  induction reads generalizing buffer with
  | nil =>
    rw [List.flatten_nil, List.append_nil] at hsame
    rw [readHead, ← hsame, if_neg (by omega)]
  | cons read reads ih =>
    rw [List.forall_mem_cons] at hreads
    rw [List.flatten_cons, ← List.append_assoc] at hsame
    have hnext : findHeaderEnd (buffer ++ read) = none :=
      findHeaderEnd_eq_none_of_append (hsame ▸ hend)
    rw [readHead, if_neg hreads.1]
    simp only [hnext]
    by_cases hlong : 1024 * 1024 < (buffer ++ read).length
    · have hle : (buffer ++ read).length ≤ bytes.length :=
        (List.prefix_append (buffer ++ read) reads.flatten).length_le.trans_eq
          (congrArg List.length hsame)
      rw [if_pos hlong, if_pos (by omega)]
    · rw [if_neg hlong]
      exact ih hsame hreads.2 (by omega)

theorem readBody_of_le {expectedLen : ℕ} (hle : expectedLen ≤ bytes.length)
    (hsame : buffer ++ reads.flatten = bytes) (hreads : ∀ read ∈ reads, read ≠ []) :
    ∃ buffer', readBody failure expectedLen buffer reads = .ok buffer' ∧
      buffer'.take expectedLen = bytes.take expectedLen := by
  induction reads generalizing buffer with
  | nil =>
    rw [List.flatten_nil, List.append_nil] at hsame
    rw [readBody, if_neg (by rw [hsame]; omega)]
    exact ⟨buffer, rfl, by rw [hsame]⟩
  | cons read reads ih =>
    rw [List.forall_mem_cons] at hreads
    rw [readBody]
    by_cases hlt : buffer.length < expectedLen
    · rw [if_pos hlt, if_neg hreads.1]
      exact ih (by rw [List.append_assoc]; exact hsame) hreads.2
    · rw [if_neg hlt]
      refine ⟨buffer, rfl, ?_⟩
      rw [← hsame, List.take_append_of_le_length (by omega)]

theorem readBody_of_lt {expectedLen : ℕ} (hlt : bytes.length < expectedLen)
    (hsame : buffer ++ reads.flatten = bytes) (hreads : ∀ read ∈ reads, read ≠ []) :
    readBody failure expectedLen buffer reads = .error
      (readError failure "connection closed before full body") := by
  have hbuffer : buffer.length < expectedLen := by
    rw [← hsame, List.length_append] at hlt
    omega
  induction reads generalizing buffer with
  | nil => rw [readBody, if_pos hbuffer]
  | cons read reads ih =>
    rw [List.forall_mem_cons] at hreads
    rw [List.flatten_cons, ← List.append_assoc] at hsame
    rw [readBody, if_pos hbuffer, if_neg hreads.1]
    refine ih hsame hreads.2 ?_
    rw [← hsame, List.length_append] at hlt
    omega

end Socket

/-- Both loops together. -/
theorem Socket.readRequest_eq {socket : Socket} {bytes : Bytes} (h : socket.Delivers bytes)
    (halike : SplitsAlike bytes) : socket.readRequest = requestOfBytes socket.failure bytes := by
  have hreads : ∀ read ∈ socket.reads, read ≠ [] := fun read hread => (h.read read hread).1
  have hempty : findHeaderEnd [] = none := rfl
  have hsame : [] ++ socket.reads.flatten = bytes := h.flatten
  cases hend : findHeaderEnd bytes with
  | none =>
    have hhead := readHead_of_none socket.failure hend hsame hreads (by decide)
    rw [readRequest, hhead, requestOfBytes]
    simp only [hend]
    split_ifs <;> rfl
  | some headerEnd =>
    obtain ⟨buffer, reads, hhead, hsame, hleft, hle⟩ :=
      readHead_of_some socket.failure halike hend hsame hreads hempty
    have hhead' : buffer.take headerEnd.1 = bytes.take headerEnd.1 := by
      rw [← hsame, List.take_append_of_le_length (by omega)]
    rw [readRequest, hhead, requestOfBytes]
    simp only [hend, ← hhead']
    change (expectedLength _ _).bind _ = (expectedLength _ _).bind _
    cases expectedLength (fromUtf8Lossy (buffer.take headerEnd.1)) (headerEnd.1 + headerEnd.2) with
    | error e => rfl
    | ok expectedLen =>
      change (readBody socket.failure expectedLen buffer reads).bind _ = ite _ _ _
      by_cases hbody : expectedLen ≤ bytes.length
      · obtain ⟨whole, hread, htake⟩ := readBody_of_le socket.failure hbody hsame hleft
        rw [hread, if_pos hbody, ← htake]
        rfl
      · rw [readBody_of_lt socket.failure (by omega) hsame hleft, if_neg hbody]
        rfl

/-- **A request does not depend on how the network splits it.** -/
theorem request_of_any_splits {socket : Socket} {bytes : Bytes} (h : socket.Delivers bytes)
    (halike : SplitsAlike bytes) :
    socket.readRequest = requestOfBytes socket.failure bytes ∧
      ∀ socket' : Socket, socket'.Delivers bytes → socket'.failure = socket.failure →
        socket'.readRequest = socket.readRequest := by
  have hread := Socket.readRequest_eq h halike
  refine ⟨hread, fun socket' h' hfailure => ?_⟩
  rw [hread, Socket.readRequest_eq h' halike, hfailure]

/-- A request whose lines end in `\n`, in two reads. -/
theorem request_of_two_reads :
    ∃ socket : Socket, socket.Delivers (utf8 "GET /v1/ready HTTP/1.1\nhost: a\n\n") ∧
    socket.reads.length = 2 ∧
      socket.readRequest = requestOfBytes none (utf8 "GET /v1/ready HTTP/1.1\nhost: a\n\n") := by
  have hcrlf : windowPosition crlfLineEnds (utf8 "GET /v1/ready HTTP/1.1\nhost: a\n\n") = none :=
    by decide +kernel
  have hend : findHeaderEnd (utf8 "GET /v1/ready HTTP/1.1\nhost: a\n\n") = some (30, 2) :=
    by decide +kernel
  have h : Socket.Delivers ⟨[utf8 "GET /v1/re", utf8 "ady HTTP/1.1\nhost: a\n\n"], none⟩
      (utf8 "GET /v1/ready HTTP/1.1\nhost: a\n\n") :=
    ⟨by decide +kernel, by decide +kernel⟩
  refine ⟨_, h, rfl, (request_of_any_splits h ⟨fun i j hi => ?_, fun i n hi => ?_⟩).1⟩
  · rw [hcrlf] at hi
    cases hi
  · rw [hend] at hi
    obtain ⟨rfl, rfl⟩ := Prod.mk.inj (Option.some.inj hi)
    decide

/-- Bytes with both kinds of empty lines: what the request is depends on the splits. -/
theorem request_of_other_splits :
    ∃ (bytes : Bytes) (whole parts : Socket), whole.Delivers bytes ∧ parts.Delivers bytes ∧
      whole.failure = parts.failure ∧ whole.readRequest.toOption = none ∧
      parts.readRequest.toOption = some "POST / HTTP/1.1\ncontent-length: 6\n\nab\r\n\r\n" := by
  refine ⟨utf8 "POST / HTTP/1.1\ncontent-length: 6\n\nab\r\n\r\n",
    ⟨[utf8 "POST / HTTP/1.1\ncontent-length: 6\n\nab\r\n\r\n"], none⟩,
    ⟨[utf8 "POST / HTTP/1.1\ncontent-length: 6\n\n", utf8 "ab\r\n\r\n"], none⟩, ⟨?_, ?_⟩,
      ⟨?_, ?_⟩, rfl, ?_, ?_⟩
  all_goals decide +kernel

/-! ### Requests as they are written -/

section Bytes

theorem HeadLine.lineEnd_notMem {line : String} (h : ∀ c ∈ line.toList, c ≠ '\n' ∧ c ≠ '\r') :
    (10 : UInt8) ∉ utf8 line ∧ (13 : UInt8) ∉ utf8 line := by
  rw [utf8_eq_flatMap]
  constructor
  · intro hmem
    obtain ⟨c, hc, hb⟩ := List.mem_flatMap.1 hmem
    exact (h c hc).1 (Char.toNat_inj.1 (Utf8.toNat_eq_of_mem hb (by decide)))
  · intro hmem
    obtain ⟨c, hc, hb⟩ := List.mem_flatMap.1 hmem
    exact (h c hc).2 (Char.toNat_inj.1 (Utf8.toNat_eq_of_mem hb (by decide)))

theorem utf8_crlfLines (lines : List String) :
    utf8 (crlfLines lines) = endLines 13 10 (lines.map utf8) := by
  have hcrlf : utf8 "\r\n" = [13, 10] := by decide +kernel
  induction lines with
  | nil => decide +kernel
  | cons line lines ih =>
    rw [crlfLines, utf8_append, utf8_append, ih, hcrlf, List.map_cons, endLines, endLines,
      List.flatMap_cons]

theorem utf8_ne_nil {s : String} (h : s ≠ "") : utf8 s ≠ [] :=
  fun hnil => h (utf8_injective (hnil.trans (by decide +kernel : utf8 "" = []).symm))

/-- **The end of a head** that is written in lines. -/
theorem windowPosition_crlfLines {lines : List String} {last : String}
    (hlines : ∀ line ∈ lines, HeadLine line) (hlast : HeadLine last) (rest : Bytes) :
    windowPosition crlfLineEnds (utf8 (crlfLines lines ++ last) ++ 13 :: 10 :: 13 :: 10 :: rest) =
        some (utf8 (crlfLines lines ++ last)).length ∧
      ∀ j, windowPosition lfLineEnds
        (utf8 (crlfLines lines ++ last) ++ 13 :: 10 :: 13 :: 10 :: rest) = some j →
        (utf8 (crlfLines lines ++ last)).length + 2 ≤ j := by
  rw [utf8_append, utf8_crlfLines]
  refine windowPosition_endLines (by decide) (fun line hline => ?_)
    ⟨utf8_ne_nil hlast.1, HeadLine.lineEnd_notMem hlast.2⟩
  obtain ⟨text, htext, rfl⟩ := List.mem_map.1 hline
  exact ⟨utf8_ne_nil (hlines text htext).1, HeadLine.lineEnd_notMem (hlines text htext).2⟩

/-- The lines of such a head. -/
theorem lines_crlfLines_last {lines : List String} {last : String}
    (hlines : ∀ line ∈ lines, HeadLine line) (hlast : HeadLine last) :
      Text.lines (crlfLines lines ++ last) = lines ++ [last] := by
  rw [lines_crlfLines hlines, Text.lines_single hlast.1 fun hmem => (hlast.2 _ hmem).1 rfl]

end Bytes

namespace RequestParts

/-- The head of the text of a request, without its last line end. -/
def headText (r : RequestParts) :
    String := crlfLines (r.requestLine :: r.headerLines) ++ r.contentLengthLine

variable (r : RequestParts)

theorem text_eq : requestTextFromParts r = r.headText ++ ("\r\n\r\n" ++ r.text) := by
  rw [requestTextFromParts_eq, headText]
  simp only [String.append_assoc]

theorem headLine_contentLengthLine : HeadLine r.contentLengthLine := by
  refine ⟨fun hempty => ?_, r.lineEnd_notMem_contentLengthLine⟩
  have hlength := congrArg (fun s : String => s.toList.length) hempty
  simp [contentLengthLine] at hlength

theorem lines_headText :
    Text.lines r.headText = r.requestLine :: r.headerLines ++ [r.contentLengthLine] := by
  rw [headText, lines_crlfLines_last r.headLine_head r.headLine_contentLengthLine]

theorem contentLengthOfLine_eq (line : String) :
    contentLengthOfLine line = (headerOfLine "content-length" line).bind parseUsize := by
  rw [contentLengthOfLine, headerOfLine]
  cases Text.splitOnce ':' line with
  | none => rfl
  | some pair =>
    obtain ⟨name, value⟩ := pair
    simp only
    split_ifs <;> rfl

/-- The request line is no header of this name: its first word is followed by a blank. -/
theorem headerOfLine_requestLine : headerOfLine "content-length" r.requestLine = none := by
  rw [headerOfLine]
  cases hsplit : Text.splitOnce ':' r.requestLine with
  | none => rfl
  | some pair =>
    obtain ⟨name, value⟩ := pair
    refine if_neg fun hsame => ?_
    have hcolon : ∀ c ∈ r.method.asStr.toList, decide (c ≠ ':') = true := by
      intro c hc
      refine decide_eq_true fun heq => ?_
      have htoken := r.method.isToken c hc
      rw [heq] at htoken
      exact absurd htoken (by decide)
    have htext : r.requestLine.toList = r.method.asStr.toList ++
        ' ' :: (r.uri.display ++ " HTTP/1.1").toList := by
      simp [requestLine]
    have hname : ' ' ∈ name.toList := by
      rw [Text.toList_of_splitOnce hsplit, htext, List.takeWhile_append_of_pos hcolon]
      simp
    have hblank : ' ' ∈ "content-length".toList.map Char.toLower := by
      rw [← eqIgnoreAsciiCase_iff.1 hsame]
      exact List.mem_map.2 ⟨' ', hname, by decide⟩
    exact absurd hblank (by decide)

/-- **The length** that the head announces is that of the body. -/
theorem contentLength_headText (h : r.body.length ≤ usizeMax) :
    contentLength r.headText = r.body.length := by
  have hname : eqIgnoreAsciiCase "content-length".toList "content-length".toList = true := by decide
  have hheaders : r.headerLines.findSome? contentLengthOfLine = none := by
    have hnone := findSome?_headerLines_contentLength r.headers hname
    rw [List.findSome?_eq_none_iff] at hnone ⊢
    intro line hline
    rw [contentLengthOfLine_eq, hnone line hline]
    rfl
  have hlast : contentLengthOfLine r.contentLengthLine = some r.body.length := by
    rw [contentLengthOfLine_eq, headerOfLine_contentLength, if_pos hname]
    exact parseUsize_toString h
  have hfirst : contentLengthOfLine r.requestLine = none := by
    rw [contentLengthOfLine_eq, headerOfLine_requestLine]
    rfl
  rw [contentLength, lines_headText, List.cons_append, List.findSome?_cons, hfirst]
  simp only [List.findSome?_append, hheaders, List.findSome?_cons, hlast]
  rfl

end RequestParts

/-- **What is written is read**, when the body is UTF-8, however it is split, and whatever
follows. -/
theorem written_request_read {r : RequestParts} {body : String} (hutf8 : r.body = utf8 body)
    (hhead : (utf8 r.headText).length + 4 ≤ 1024 * 1024)
    (hbody : r.body.length ≤ 16 * 1024 * 1024) {socket : Socket} {more : Bytes}
    (h : socket.Delivers (utf8 (requestTextFromParts r) ++ more)) :
    socket.readRequest = .ok (requestTextFromParts r) := by
  have htext : utf8 r.text = r.body := by rw [RequestParts.text, hutf8, fromUtf8Lossy_utf8]
  have hends : utf8 ("\r\n\r\n" ++ r.text) = 13 :: 10 :: 13 :: 10 :: utf8 r.text := by
    rw [utf8_append, (by decide +kernel : utf8 "\r\n\r\n" = [13, 10, 13, 10])]
    rfl
  have hbytes : utf8 (requestTextFromParts r) ++ more =
      utf8 r.headText ++ 13 :: 10 :: 13 :: 10 :: (utf8 r.text ++ more) := by
    rw [r.text_eq, utf8_append, hends, List.append_assoc]
    rfl
  obtain ⟨hfound, hlater⟩ :=
    windowPosition_crlfLines r.headLine_head r.headLine_contentLengthLine (utf8 r.text ++ more)
  rw [← RequestParts.headText, ← hbytes] at hfound hlater
  have hend : findHeaderEnd (utf8 (requestTextFromParts r) ++ more) =
      some ((utf8 r.headText).length, 4) := by
    rw [findHeaderEnd, hfound]
    rfl
  have halike : SplitsAlike (utf8 (requestTextFromParts r) ++ more) := by
    constructor
    · intro i j hi hj
      obtain rfl := Option.some.inj (hfound.symm.trans hi)
      exact hlater j hj
    · intro i n hi
      obtain ⟨rfl, rfl⟩ := Prod.mk.inj (Option.some.inj (hend.symm.trans hi))
      exact hhead
  have hheaders : fromUtf8Lossy
      ((utf8 (requestTextFromParts r) ++ more).take (utf8 r.headText).length) =
      r.headText := by
    rw [hbytes, List.take_left, fromUtf8Lossy_utf8]
  have hsize : (utf8 (requestTextFromParts r)).length =
      (utf8 r.headText).length + 4 + r.body.length := by
    rw [r.text_eq, utf8_append, hends]
    simp only [List.length_append, List.length_cons, htext]
    omega
  have hexpected : expectedLength r.headText ((utf8 r.headText).length + 4) =
      .ok (utf8 (requestTextFromParts r)).length := by
    rw [expectedLength, r.contentLength_headText (by unfold usizeMax; omega),
      if_neg (by omega), hsize]
    exact if_neg (by unfold usizeMax; omega)
  rw [Socket.readRequest_eq h halike, requestOfBytes]
  simp only [hend, hheaders, hexpected]
  change ite _ _ _ = _
  rw [if_pos (by rw [List.length_append]; omega), List.take_left, fromUtf8Lossy_utf8]

/-- A request in two reads, the second of which begins the next one. -/
theorem disguisedRequest_read :
    Socket.readRequest ⟨[(utf8 (requestTextFromParts disguisedRequest)).take 30,
        (utf8 (requestTextFromParts disguisedRequest)).drop 30 ++ utf8 "GET /"], none⟩ =
      .ok (requestTextFromParts disguisedRequest) :=
  @written_request_read disguisedRequest _ rfl (by decide +kernel)
    (by decide +kernel) _ (utf8 "GET /") ⟨by simp [← List.append_assoc], by decide +kernel⟩

end TraceDB
