import TraceDB.Core.Names
import TraceDB.Data.Streams
import TraceDB.Server.Commands

/-!
# Requests as text

The server gets a request in parts, writes it as one text (`request_text_from_parts`), and
`handle_request_text` takes that text apart again: the first two words are the method and the
target, any line with a colon can be a header, and the body is what stands after the first empty
line.

`framing_round_trip` says what comes out of this.  Header lines are looked for in the body too, and
the body ends at its first empty line, so these two are said of bodies that have no such line.

The types of the `http` crate are structures of what the server asks of their values, with what the
crate documents of it as fields.
-/

namespace TraceDB

/-! ### Texts -/

namespace Text

/-! A text between two empty lines, for the second piece of a text with lines before it. -/

/-- The separator of a head and a body. -/
abbrev emptyLine : List Char := ['\r', '\n', '\r', '\n']

theorem pieces_line {line rest : List Char} (hline : '\r' ∉ line) (hrest : rest.head? ≠ some '\r') :
    (pieces emptyLine 0 (line ++ '\r' :: '\n' :: rest))[1]? = (pieces emptyLine 0 rest)[1]? := by
  induction line with
  | nil =>
    have hfirst : ¬ emptyLine <+: '\r' :: '\n' :: rest := by
      rintro ⟨after, h⟩
      have hafter : rest = '\r' :: '\n' :: after := by simpa using h.symm
      rw [hafter] at hrest
      exact hrest rfl
    have hsecond : ¬ emptyLine <+: '\n' :: rest := by
      rintro ⟨after, h⟩
      simp at h
    rw [List.nil_append, pieces_cons hfirst, pieces_cons hsecond]
    simp
  | cons c line ih =>
    rw [List.mem_cons, not_or] at hline
    have hfirst : ¬ emptyLine <+: c :: (line ++ '\r' :: '\n' :: rest) := by
      rintro ⟨after, h⟩
      exact hline.1 (List.cons.inj h).1
    rw [List.cons_append, pieces_cons hfirst, ← ih hline.2]
    simp

/-- The text after the last of some lines and an empty line. -/
theorem pieces_last {line rest : List Char} (hline : '\r' ∉ line) :
    (pieces emptyLine 0 (line ++ emptyLine ++ rest))[1]? = (pieces emptyLine 0 rest)[0]? := by
  induction line with
  | nil =>
    rw [List.nil_append, pieces_separator]
    rfl
  | cons c line ih =>
    rw [List.mem_cons, not_or] at hline
    have hfirst : ¬ emptyLine <+: c :: (line ++ emptyLine ++ rest) := by
      rintro ⟨after, h⟩
      exact hline.1 (List.cons.inj h).1
    rw [List.cons_append, List.cons_append, pieces_cons hfirst, ← ih hline.2]
    simp

end Text

/-! ### The parts of a request -/

/-- The characters of a header name, which is in lower case. -/
def isHeaderNameChar (c : Char) : Bool :=
  let n := c.toNat
  (97 ≤ n && n ≤ 122) || (48 ≤ n && n ≤ 57) || "!#$%&'*+-.^_|~".toList.contains c || n = 96

/-- The characters of a token. -/
def isTokenChar (c : Char) : Bool := isHeaderNameChar c || (65 ≤ c.toNat && c.toNat ≤ 90)

/-- `http::Method`: a token. -/
structure Method where
  asStr : String
  ne_empty : asStr ≠ ""
  isToken : ∀ c ∈ asStr.toList, isTokenChar c = true

/-- `http::HeaderName`: a token in lower case. -/
structure HeaderName where
  asStr : String
  isToken : ∀ c ∈ asStr.toList, isHeaderNameChar c = true

/-- `http::HeaderValue`, by its `to_str`: there is a text if all bytes are visible ASCII, blanks or
tabs. -/
structure HeaderValue where
  toStr : Option String
  isVisible : ∀ text, toStr = some text → ∀ c ∈ text.toList, c = '\t' ∨
    (32 ≤ c.toNat ∧ c.toNat < 127)

/-- `http::Uri`, by its parts and by what `Display` writes: without scheme and authority, the path,
and a question mark with the query if there is one; no control characters and no blanks. -/
structure Uri where
  scheme : Option String
  authority : Option String
  path : String
  display : String
  path_ne_empty : authority = none → path ≠ ""
  path_noQuery : '?' ∉ path.toList
  display_origin : scheme = none → authority = none →
    ∃ rest, display = path ++ rest ∧ (rest = "" ∨ rest.toList.head? = some '?')
  isVisible : ∀ c ∈ display.toList, 32 < c.toNat

/-- `String::from_utf8_lossy`. -/
def fromUtf8Lossy (bytes : Bytes) : String := String.ofList (Utf8.lossyFrom 0 bytes)

theorem utf8_eq_flatMap (s : String) : utf8 s = s.toList.flatMap String.utf8EncodeChar := by
  rw [utf8_eq, ← String.utf8Encode_toList, List.utf8Encode, List.data_toByteArray]

theorem utf8_append (a b : String) : utf8 (a ++ b) = utf8 a ++ utf8 b := by
  rw [utf8_eq_flatMap, utf8_eq_flatMap, utf8_eq_flatMap, String.toList_append, List.flatMap_append]

/-- What is no text is the only thing that is lost. -/
theorem fromUtf8Lossy_utf8 (s : String) : fromUtf8Lossy (utf8 s) = s := by
  have hdecode := Utf8.lossyFrom_encode s.toList []
  rw [List.append_nil, Utf8.lossyFrom, List.append_nil] at hdecode
  rw [fromUtf8Lossy, utf8_eq_flatMap, hdecode, String.ofList_toList]

/-- A request as the server gets it. -/
structure RequestParts where
  method : Method
  uri : Uri
  headers : List (HeaderName × HeaderValue)
  /-- The names are distinct. -/
  nodup : (headers.map (·.1.asStr)).Nodup
  body : Bytes

/-- The body as a text. -/
def RequestParts.text (r : RequestParts) : String := fromUtf8Lossy r.body

/-- `HeaderMap::get`. -/
def RequestParts.header (r : RequestParts) (name : String) : Option HeaderValue :=
  (r.headers.find? fun header => eqIgnoreAsciiCase header.1.asStr.toList name.toList).map (·.2)

/-! ### The text of a request -/

/-- `request_text_from_parts`. -/
def requestTextFromParts (r : RequestParts) : String :=
  let request := r.method.asStr ++ " " ++ r.uri.display ++ " HTTP/1.1\r\n"
  let request := r.headers.foldl (fun request header =>
    if eqIgnoreAsciiCase header.1.asStr.toList "content-length".toList then request
    else
      match header.2.toStr with
      | some value => request ++ header.1.asStr ++ ": " ++ value ++ "\r\n"
      | none => request) request
  request ++ "content-length: " ++ toString r.body.length ++ "\r\n\r\n" ++ fromUtf8Lossy r.body

/-- `route_path`. -/
def routePath (target : String) : String :=
  match Text.splitOnce '?' target with
  | some (path, _) => path
  | none => target

/-- The words of the request line. -/
def requestWords (request : String) : List String :=
  Text.splitWhitespace ((Text.lines request).head?.getD "")

/-- The method that `handle_request_text` goes by. -/
def requestMethod (request : String) : String := (requestWords request).head?.getD ""

/-- The path that `handle_request_text` goes by. -/
def requestPath (request : String) : String := routePath ((requestWords request)[1]?.getD "")

/-- The body that `handle_request_text` goes by. -/
def requestBody (request : String) : String :=
  (((Text.split "\r\n\r\n" request)[1]?).or ((Text.split "\n\n" request)[1]?)).getD ""

/-- A line that is read as a header. -/
def headerOfLine (name : String) (line : String) : Option String :=
  match Text.splitOnce ':' line with
  | none => none
  | some (header, value) =>
    if eqIgnoreAsciiCase header.toList name.toList then some (Text.trim value) else none

/-- `header_value`. -/
def headerValue (request name : String) : Option String :=
  ((Text.lines request).drop 1).findSome? (headerOfLine name)

/-! ### The lines of the text -/

/-- The line of a header; there is none for `content-length`, nor for a value that is no text. -/
def headerLine (header : HeaderName × HeaderValue) : Option String :=
  if eqIgnoreAsciiCase header.1.asStr.toList "content-length".toList then none
  else header.2.toStr.map fun value => header.1.asStr ++ ": " ++ value

namespace RequestParts

variable (r : RequestParts)

def requestLine : String := r.method.asStr ++ " " ++ r.uri.display ++ " HTTP/1.1"

def headerLines : List String := r.headers.filterMap headerLine

def contentLengthLine : String := "content-length: " ++ toString r.body.length

end RequestParts

/-- Lines that end in `\r\n`. -/
def crlfLines : List String → String
  | [] => ""
  | line :: lines => line ++ "\r\n" ++ crlfLines lines

theorem foldl_headerLine (headers : List (HeaderName × HeaderValue)) (request : String) :
    headers.foldl (fun request header =>
      if eqIgnoreAsciiCase header.1.asStr.toList "content-length".toList then request
      else
        match header.2.toStr with
        | some value => request ++ header.1.asStr ++ ": " ++ value ++ "\r\n"
        | none => request) request = request ++ crlfLines (headers.filterMap headerLine) := by
  induction headers generalizing request with
  | nil => exact String.append_empty.symm
  | cons header headers ih =>
    rw [List.foldl_cons, ih, List.filterMap_cons, headerLine]
    split_ifs with hlength
    · rfl
    · cases header.2.toStr with
      | none => rfl
      | some value => simp only [Option.map_some, crlfLines, String.append_assoc]

/-- The text of a request: its lines, an empty line and the body. -/
theorem requestTextFromParts_eq (r : RequestParts) :
    requestTextFromParts r =
      crlfLines (r.requestLine :: r.headerLines) ++
        (r.contentLengthLine ++ "\r\n\r\n" ++ r.text) := by
  have hline : " HTTP/1.1\r\n" = " HTTP/1.1" ++ "\r\n" := by simp
  rw [requestTextFromParts, foldl_headerLine]
  simp only [crlfLines, RequestParts.requestLine, RequestParts.headerLines,
    RequestParts.contentLengthLine, RequestParts.text, hline, String.append_assoc]

/-- A line of the head: it is not empty, and has no line end in it. -/
def HeadLine (line : String) : Prop := line ≠ "" ∧ ∀ c ∈ line.toList, c ≠ '\n' ∧ c ≠ '\r'

theorem lines_crlfLines {lines : List String} (h : ∀ line ∈ lines, HeadLine line) (rest : String) :
    Text.lines (crlfLines lines ++ rest) = lines ++ Text.lines rest := by
  induction lines with
  | nil => rw [crlfLines, String.empty_append, List.nil_append]
  | cons line lines ih =>
    rw [List.forall_mem_cons] at h
    have hline : '\n' ∉ line.toList := fun hmem => (h.1.2 _ hmem).1 rfl
    rw [crlfLines, String.append_assoc, Text.lines_crlf hline, ih h.2, List.cons_append]

theorem head?_crlfLines {lines : List String} (h : ∀ line ∈ lines, HeadLine line) {rest : String}
    (hrest : rest.toList.head? ≠ some '\r') :
      (crlfLines lines ++ rest).toList.head? ≠ some '\r' := by
  cases lines with
  | nil => rwa [crlfLines, String.empty_append]
  | cons line lines =>
    obtain ⟨hne, hchars⟩ := h line List.mem_cons_self
    have hnil : line.toList ≠ [] := by simpa using hne
    obtain ⟨c, chars, hline⟩ := List.exists_cons_of_ne_nil hnil
    rw [crlfLines, String.append_assoc, String.append_assoc, String.toList_append, hline,
      List.cons_append, List.head?_cons, ne_eq, Option.some.injEq]
    exact (hchars c (by rw [hline]; exact List.mem_cons_self)).2

theorem pieces_crlfLines {lines : List String} (h : ∀ line ∈ lines, HeadLine line) {rest : String}
    (hrest : rest.toList.head? ≠ some '\r') :
    (Text.pieces Text.emptyLine 0 (crlfLines lines ++ rest).toList)[1]? =
      (Text.pieces Text.emptyLine 0 rest.toList)[1]? := by
  induction lines with
  | nil => rw [crlfLines, String.empty_append]
  | cons line lines ih =>
    rw [List.forall_mem_cons] at h
    have htext : (crlfLines (line :: lines) ++ rest).toList =
        line.toList ++ '\r' :: '\n' :: (crlfLines lines ++ rest).toList := by
      simp [crlfLines]
    rw [htext, Text.pieces_line (fun hmem => (h.1.2 _ hmem).2 rfl) (head?_crlfLines h.2 hrest),
      ih h.2]

/-! The characters of the head are visible, blanks or tabs. -/

theorem ne_lineEnds_of_lt {c : Char} (h : 13 < c.toNat) : c ≠ '\n' ∧ c ≠ '\r' := by
  constructor
  · rintro rfl
    exact absurd h (by decide)
  · rintro rfl
    exact absurd h (by decide)

theorem isHeaderNameChar_spec {c : Char} (h : isHeaderNameChar c = true) :
    32 < c.toNat ∧ c.toNat < 127 ∧ c ≠ ':' ∧ c.toLower = c := by
  have hmarks : ∀ c ∈ "!#$%&'*+-.^_|~".toList,
      32 < c.toNat ∧ c.toNat < 127 ∧ c ≠ ':' ∧ c.toLower = c := by
    decide
  have hrange : (97 ≤ c.toNat ∧ c.toNat ≤ 122) ∨ (48 ≤ c.toNat ∧ c.toNat ≤ 57) ∨ c.toNat = 96 →
      32 < c.toNat ∧ c.toNat < 127 ∧ c ≠ ':' ∧ c.toLower = c := by
    intro hrange
    refine ⟨by omega, by omega, ?_, ?_⟩
    · rintro rfl
      exact absurd hrange (by decide)
    · refine dif_neg ?_
      simp only [ge_iff_le, UInt32.le_iff_toNat_le]
      intro hupper
      have hupper : 65 ≤ c.toNat ∧ c.toNat ≤ 90 := hupper
      omega
  simp only [isHeaderNameChar, Bool.or_eq_true, Bool.and_eq_true, decide_eq_true_eq,
    List.contains_iff_mem] at h
  rcases h with ((h | h) | h) | h
  · exact hrange (.inl h)
  · exact hrange (.inr (.inl h))
  · exact hmarks c h
  · exact hrange (.inr (.inr h))

theorem isTokenChar_spec {c : Char} (h : isTokenChar c = true) : 32 < c.toNat ∧ c.toNat < 127 := by
  simp only [isTokenChar, Bool.or_eq_true, Bool.and_eq_true, decide_eq_true_eq] at h
  rcases h with h | h
  · exact ⟨(isHeaderNameChar_spec h).1, (isHeaderNameChar_spec h).2.1⟩
  · omega

theorem HeaderValue.ne_lineEnds {value : HeaderValue} {text : String} (h : value.toStr = some text)
    {c : Char} (hc : c ∈ text.toList) : c ≠ '\n' ∧ c ≠ '\r' := by
  rcases value.isVisible text h c hc with rfl | ⟨hmin, -⟩
  · decide
  · exact ne_lineEnds_of_lt ((by decide : 13 < 32).trans_le hmin)

theorem RequestParts.headLine_requestLine (r : RequestParts) : HeadLine r.requestLine := by
  have hlast : ∀ c ∈ " HTTP/1.1".toList, 13 < c.toNat := by decide
  have hspace : ∀ c ∈ " ".toList, 13 < c.toNat := by decide
  refine ⟨fun hempty => ?_, fun c hc => ne_lineEnds_of_lt ?_⟩
  · have hlength := congrArg (fun s : String => s.toList.length) hempty
    simp [RequestParts.requestLine] at hlength
  · simp only [RequestParts.requestLine, String.toList_append, List.mem_append] at hc
    rcases hc with ((hc | hc) | hc) | hc
    · exact (by decide : 13 < 32).trans (isTokenChar_spec (r.method.isToken c hc)).1
    · exact hspace c hc
    · exact (by decide : 13 < 32).trans (r.uri.isVisible c hc)
    · exact hlast c hc

theorem headLine_headerLine {header : HeaderName × HeaderValue} {line : String}
    (h : headerLine header = some line) : HeadLine line := by
  rw [headerLine, Option.ite_none_left_eq_some, Option.map_eq_some_iff] at h
  obtain ⟨-, value, hvalue, rfl⟩ := h
  have hcolon : ∀ c ∈ ": ".toList, 13 < c.toNat := by decide
  refine ⟨fun hempty => ?_, fun c hc => ?_⟩
  · have hlength := congrArg (fun s : String => s.toList.length) hempty
    simp at hlength
  · simp only [String.toList_append, List.mem_append] at hc
    rcases hc with (hc | hc) | hc
    · exact ne_lineEnds_of_lt ((by decide : 13 < 32).trans
        (isHeaderNameChar_spec (header.1.isToken c hc)).1)
    · exact ne_lineEnds_of_lt (hcolon c hc)
    · exact HeaderValue.ne_lineEnds hvalue hc

theorem RequestParts.headLine_head (r : RequestParts) :
    ∀ line ∈ r.requestLine :: r.headerLines, HeadLine line := by
  rw [List.forall_mem_cons]
  refine ⟨r.headLine_requestLine, fun line hline => ?_⟩
  obtain ⟨header, -, hheader⟩ := List.mem_filterMap.1 hline
  exact headLine_headerLine hheader

theorem RequestParts.lineEnd_notMem_contentLengthLine (r : RequestParts) :
    ∀ c ∈ r.contentLengthLine.toList, c ≠ '\n' ∧ c ≠ '\r' := by
  have hname : ∀ c ∈ "content-length: ".toList, 13 < c.toNat := by decide
  intro c hc
  rw [RequestParts.contentLengthLine, String.toList_append, List.mem_append] at hc
  rcases hc with hc | hc
  · exact ne_lineEnds_of_lt (hname c hc)
  · have hdigit := Text.isDigit_of_mem_toString hc
    refine ne_lineEnds_of_lt ?_
    have hrange : 48 ≤ c.toNat ∧ c.toNat ≤ 57 := Text.isDigit_iff.1 hdigit
    omega

/-! ### Taking the text apart -/

/-- **The lines of the text.** -/
theorem lines_requestText (r : RequestParts) :
    Text.lines (requestTextFromParts r) =
      r.requestLine :: (r.headerLines ++ r.contentLengthLine :: "" :: Text.lines r.text) := by
  have hlast : "\r\n\r\n" = "\r\n" ++ ("" ++ "\r\n") := by simp
  have hlength : '\n' ∉ r.contentLengthLine.toList :=
    fun hmem => (r.lineEnd_notMem_contentLengthLine _ hmem).1 rfl
  rw [requestTextFromParts_eq, lines_crlfLines r.headLine_head, hlast, String.append_assoc,
    String.append_assoc, ← String.append_assoc, Text.lines_crlf hlength,
    @Text.lines_crlf "" (by decide), List.cons_append]

theorem HeaderName.map_toLower (header : HeaderName) :
    header.asStr.toList.map Char.toLower = header.asStr.toList :=
  (List.map_congr_left fun c hc => (isHeaderNameChar_spec (header.isToken c hc)).2.2.2).trans
    (List.map_id _)

theorem HeaderName.colon_notMem (header : HeaderName) : ':' ∉ header.asStr.toList :=
  fun hmem => (isHeaderNameChar_spec (header.isToken _ hmem)).2.2.1 rfl

/-- A line of the form that headers are written in. -/
theorem headerOfLine_colon {header value : String} (h : ':' ∉ header.toList) (name : String) :
    headerOfLine name (header ++ ": " ++ value) =
      if eqIgnoreAsciiCase header.toList name.toList then some (Text.trim value) else none := by
  have hline : header ++ ": " ++ value = header ++ String.singleton ':' ++ (" " ++ value) := by
    rw [← String.toList_inj]
    simp
  rw [headerOfLine, hline, Text.splitOnce_of_notMem h]
  simp only [Text.trim_space]

/-- What is read off the lines of headers other than `content-length`. -/
theorem findSome?_headerLines {headers : List (HeaderName × HeaderValue)}
    (hnodup : (headers.map (·.1.asStr)).Nodup) {name : String}
    (hname : eqIgnoreAsciiCase name.toList "content-length".toList = false) :
    (headers.filterMap headerLine).findSome? (headerOfLine name) =
      (((headers.find? fun header => eqIgnoreAsciiCase header.1.asStr.toList name.toList).map
        (·.2)).bind HeaderValue.toStr).map Text.trim := by
  induction headers with
  | nil => rfl
  | cons header headers ih =>
    rw [List.map_cons, List.nodup_cons] at hnodup
    have ih := ih hnodup.2
    by_cases hmatch : eqIgnoreAsciiCase header.1.asStr.toList name.toList = true
    · -- The header that is looked for; no other one has its name.
      have hlength : ¬ eqIgnoreAsciiCase header.1.asStr.toList "content-length".toList = true := by
        rw [eqIgnoreAsciiCase_congr hmatch, hname]
        exact Bool.false_ne_true
      have hrest : (headers.find? fun header =>
          eqIgnoreAsciiCase header.1.asStr.toList name.toList) = none := by
        refine List.find?_eq_none.2 fun other hmem hother => hnodup.1 ?_
        have hsame : header.1.asStr.toList = other.1.asStr.toList := by
          rw [eqIgnoreAsciiCase_iff] at hmatch hother
          rw [← header.1.map_toLower, ← other.1.map_toLower, hmatch, hother]
        rw [String.toList_inj.1 hsame]
        exact List.mem_map_of_mem hmem
      rw [hrest] at ih
      rw [List.find?_cons_of_pos (p := fun header : HeaderName × HeaderValue =>
          eqIgnoreAsciiCase header.1.asStr.toList name.toList) hmatch,
        Option.map_some, Option.bind_some, List.filterMap_cons, headerLine, if_neg hlength]
      cases header.2.toStr with
      | none => exact ih
      | some value =>
        rw [Option.map_some, List.findSome?_cons, headerOfLine_colon header.1.colon_notMem,
          if_pos hmatch, Option.map_some]
    · rw [List.find?_cons_of_neg (p := fun header : HeaderName × HeaderValue =>
          eqIgnoreAsciiCase header.1.asStr.toList name.toList) hmatch,
        ← ih, List.filterMap_cons, headerLine]
      split_ifs with hlength
      · rfl
      · cases header.2.toStr with
        | none => rfl
        | some value =>
          rw [Option.map_some, List.findSome?_cons, headerOfLine_colon header.1.colon_notMem,
            if_neg hmatch]

/-- No header line reads as `content-length`. -/
theorem findSome?_headerLines_contentLength (headers : List (HeaderName × HeaderValue))
    {name : String} (hname : eqIgnoreAsciiCase name.toList "content-length".toList = true) :
    (headers.filterMap headerLine).findSome? (headerOfLine name) = none := by
  rw [List.findSome?_eq_none_iff]
  intro line hline
  obtain ⟨header, -, hheader⟩ := List.mem_filterMap.1 hline
  rw [headerLine, Option.ite_none_left_eq_some, Option.map_eq_some_iff] at hheader
  obtain ⟨hother, value, -, rfl⟩ := hheader
  rw [headerOfLine_colon header.1.colon_notMem, if_neg]
  intro hmatch
  rw [eqIgnoreAsciiCase_congr hmatch] at hother
  exact hother hname

theorem headerOfLine_contentLength (r : RequestParts) (name : String) :
    headerOfLine name r.contentLengthLine =
      if eqIgnoreAsciiCase name.toList "content-length".toList then some (toString r.body.length)
      else none := by
  have hline : r.contentLengthLine = "content-length" ++ ": " ++ toString r.body.length := by
    have htext : "content-length: " = "content-length" ++ ": " := by simp
    rw [RequestParts.contentLengthLine, htext]
  rw [hline, headerOfLine_colon (by decide), Text.trim_toString, eqIgnoreAsciiCase_comm]

theorem headerOfLine_empty (name : String) : headerOfLine name "" = none := by
  rw [headerOfLine, Text.splitOnce_eq_none (by decide)]

/-- **Where `header_value` finds a header**: among the headers, and then in the body. -/
theorem headerValue_requestText (r : RequestParts) (name : String) :
    headerValue (requestTextFromParts r) name =
      if eqIgnoreAsciiCase name.toList "content-length".toList then some (toString r.body.length)
      else (((r.header name).bind HeaderValue.toStr).map Text.trim).or
        ((Text.lines r.text).findSome? (headerOfLine name)) := by
  rw [headerValue, lines_requestText, List.drop_succ_cons, List.drop_zero, List.findSome?_append,
    List.findSome?_cons, List.findSome?_cons, headerOfLine_contentLength, headerOfLine_empty]
  cases hname : eqIgnoreAsciiCase name.toList "content-length".toList with
  | true =>
    rw [RequestParts.headerLines, findSome?_headerLines_contentLength r.headers hname]
    rfl
  | false =>
    rw [RequestParts.headerLines, findSome?_headerLines r.nodup hname]
    rfl

/-- **The body** ends at its first empty line. -/
theorem requestBody_requestText (r : RequestParts) :
    requestBody (requestTextFromParts r) =
      ((Text.split "\r\n\r\n" r.text)[0]?).getD "" := by
  have hlength : '\r' ∉ r.contentLengthLine.toList :=
    fun hmem => (r.lineEnd_notMem_contentLengthLine _ hmem).2 rfl
  have hempty : "\r\n\r\n".toList = Text.emptyLine := rfl
  have hhead : (r.contentLengthLine ++ "\r\n\r\n" ++ r.text).toList.head? ≠ some '\r' := by
    simp [RequestParts.contentLengthLine]
  have htext : (r.contentLengthLine ++ "\r\n\r\n" ++ r.text).toList =
      r.contentLengthLine.toList ++ Text.emptyLine ++ r.text.toList := by
    rw [String.toList_append, String.toList_append, hempty]
  have hpieces : (Text.split "\r\n\r\n" (requestTextFromParts r))[1]? =
      (Text.split "\r\n\r\n" r.text)[0]? := by
    rw [Text.split, Text.split, hempty, requestTextFromParts_eq, List.getElem?_map,
      List.getElem?_map, pieces_crlfLines r.headLine_head hhead, htext, Text.pieces_last hlength]
  have hsome : ∃ piece, (Text.split "\r\n\r\n" r.text)[0]? = some piece := by
    have hne : Text.split "\r\n\r\n" r.text ≠ [] :=
      fun h => Text.pieces_ne_nil _ _ _ (List.map_eq_nil_iff.1 h)
    obtain ⟨piece, pieces, h⟩ := List.exists_cons_of_ne_nil hne
    exact ⟨piece, by rw [h]; rfl⟩
  obtain ⟨piece, hpiece⟩ := hsome
  rw [requestBody, hpieces, hpiece]
  rfl

theorem requestWords_requestText (r : RequestParts) :
    requestWords (requestTextFromParts r) =
      r.method.asStr :: Text.splitWhitespace (r.uri.display ++ " HTTP/1.1") := by
  have htext : r.requestLine.toList = r.method.asStr.toList ++ ' ' ::
      (r.uri.display ++ " HTTP/1.1").toList := by
    simp [RequestParts.requestLine]
  rw [requestWords, lines_requestText, List.head?_cons, Option.getD_some]
  exact Text.splitWhitespace_of_first htext rfl r.method.ne_empty fun c hc =>
    Text.isWhitespace_of_visible (isTokenChar_spec (r.method.isToken c hc))

theorem routePath_of_path {target path : String} (hpath : '?' ∉ path.toList)
    {rest : String} (htarget : target = path ++ rest)
    (hrest : rest = "" ∨ rest.toList.head? = some '?') : routePath target = path := by
  rw [routePath, htarget]
  rcases hrest with rfl | hrest
  · rw [String.append_empty, Text.splitOnce_eq_none hpath]
  · obtain ⟨chars, hchars⟩ : ∃ chars, rest.toList = '?' :: chars := List.head?_eq_some_iff.1 hrest
    have hsplit : path ++ rest = path ++ String.singleton '?' ++ String.ofList chars := by
      rw [← String.toList_inj]
      simp [hchars]
    rw [hsplit, Text.splitOnce_of_notMem hpath]

/-- **The path** of a URI in origin form. -/
theorem requestPath_requestText {r : RequestParts} (hscheme : r.uri.scheme = none)
    (hauthority : r.uri.authority = none)
    (hwhite : ∀ c ∈ r.uri.path.toList, Text.isWhitespace c = false) :
    requestPath (requestTextFromParts r) = r.uri.path := by
  obtain ⟨rest, hdisplay, hrest⟩ := r.uri.display_origin hscheme hauthority
  -- The second word is the path and what follows it up to the first white space.
  obtain ⟨more, c, after, hmore, hc, hword, hhead⟩ : ∃ more c after,
      (rest ++ " HTTP/1.1").toList = more ++ c :: after ∧ Text.isWhitespace c = true ∧
        (∀ c ∈ more, Text.isWhitespace c = false) ∧ (more = [] ∨ more.head? = some '?') := by
    rcases hrest with rfl | hrest
    · exact ⟨[], ' ', "HTTP/1.1".toList, by simp, rfl, by simp, .inl rfl⟩
    · obtain ⟨chars, hchars⟩ : ∃ chars, rest.toList = '?' :: chars := List.head?_eq_some_iff.1 hrest
      have hspace : ∃ c ∈ chars ++ " HTTP/1.1".toList, Text.isWhitespace c = true :=
        ⟨' ', List.mem_append_right _ (by decide), rfl⟩
      obtain ⟨word, c, after, htext, hc, hword⟩ := Text.exists_first_whitespace hspace
      refine ⟨'?' :: word, c, after, ?_, hc, List.forall_mem_cons.2 ⟨rfl, hword⟩, .inr rfl⟩
      rw [String.toList_append, hchars, List.cons_append, htext, List.cons_append]
  have htext : (r.uri.display ++ " HTTP/1.1").toList =
      (r.uri.path ++ String.ofList more).toList ++ c :: (String.ofList after).toList := by
    rw [hdisplay, String.append_assoc, String.toList_append, hmore]
    simp
  have hne : r.uri.path ++ String.ofList more ≠ "" := by
    intro hempty
    exact r.uri.path_ne_empty hauthority (String.append_eq_empty_iff.1 hempty).1
  have hwords : ∀ c ∈ (r.uri.path ++ String.ofList more).toList, Text.isWhitespace c = false := by
    intro c hmem
    rw [String.toList_append, String.toList_ofList, List.mem_append] at hmem
    exact hmem.elim (hwhite c) (hword c)
  rw [requestPath, requestWords_requestText, Text.splitWhitespace_of_first htext hc hne hwords]
  refine routePath_of_path r.uri.path_noQuery rfl ?_
  rw [String.toList_ofList]
  rcases hhead with rfl | hhead
  · exact .inl rfl
  · exact .inr hhead

/-- **The parts of a request come out of its text.**  `content-length` is that of the body, a value
has no outer white space, and one that is no text is not there.  A header that is not there is not
found unless a line of the body reads as one, and the body is whole unless it has an empty line.
The text of a body that is UTF-8 is this body. -/
theorem framing_round_trip (r : RequestParts) :
    requestMethod (requestTextFromParts r) = r.method.asStr ∧
      (r.uri.scheme = none → r.uri.authority = none →
        (∀ c ∈ r.uri.path.toList, Text.isWhitespace c = false) →
        requestPath (requestTextFromParts r) = r.uri.path) ∧
      (∀ name, eqIgnoreAsciiCase name.toList "content-length".toList = true →
        headerValue (requestTextFromParts r) name = some (toString r.body.length)) ∧
      (∀ name, eqIgnoreAsciiCase name.toList "content-length".toList = false →
        (∀ value text, r.header name = some value → value.toStr = some text →
          headerValue (requestTextFromParts r) name = some (Text.trim text)) ∧
        ((∀ value, r.header name = some value → value.toStr = none) →
          (∀ line ∈ Text.lines r.text, headerOfLine name line = none) →
            headerValue (requestTextFromParts r) name = none)) ∧
      (¬ "\r\n\r\n".toList <:+: r.text.toList → requestBody (requestTextFromParts r) = r.text) ∧
      ∀ body : String, r.body = utf8 body → r.text = body := by
  refine ⟨?_, requestPath_requestText, fun name hname => ?_, fun name hname => ⟨?_, ?_⟩,
    fun hbody => ?_,
    fun body hbody => ?_⟩
  · rw [requestMethod, requestWords_requestText]
    rfl
  · rw [headerValue_requestText, if_pos hname]
  · intro value text hheader htext
    rw [headerValue_requestText, hname, hheader, Option.bind_some, htext]
    rfl
  · intro hheader hlines
    have hnone : (r.header name).bind HeaderValue.toStr = none := by
      cases hfound : r.header name with
      | none => rfl
      | some value => exact hheader value hfound
    rw [headerValue_requestText, hname, hnone, List.findSome?_eq_none_iff.2 hlines]
    rfl
  · rw [requestBody_requestText, Text.split, Text.pieces_of_not_infix hbody]
    simp
  · rw [RequestParts.text, hbody, fromUtf8Lossy_utf8]

/-- A request without headers, with a body that is read as one. -/
def disguisedRequest : RequestParts where
  method := ⟨"POST", by decide, by decide⟩
  uri := ⟨none, none, "/v1/records", "/v1/records", by decide, by decide,
    fun _ _ => ⟨"", by simp, .inl rfl⟩, by decide⟩
  headers := []
  nodup := by decide
  body := utf8 "x-request-id: 7\r\n\r\nmore"

/-- A length that was not given is found, a header is found in the body, and the body is cut. -/
theorem disguisedRequest_apart :
    disguisedRequest.header "content-length" = none ∧
      headerValue (requestTextFromParts disguisedRequest) "content-length" = some "23" ∧
      disguisedRequest.header "x-request-id" = none ∧
      headerValue (requestTextFromParts disguisedRequest) "x-request-id" = some "7" ∧
      requestBody (requestTextFromParts disguisedRequest) ≠ disguisedRequest.text := by
  decide +kernel

end TraceDB
