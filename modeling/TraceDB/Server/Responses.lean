import TraceDB.Server.Request
import TraceDB.Server.Socket

/-!
# Responses as they are sent

The handler makes the text of a response; one server sends it as it is, the other takes it apart and
builds a response from the parts, with the builder of the `http` crate.  The crate is a parameter
(`ResponseBuilder`): what is said here is what the builder is told.

* `responseFromHttpText_answerText` : a text in lines is taken apart into what it was made of.
* `response_sent` : so are the texts of the handler, whatever their bodies are.
-/

namespace TraceDB

/-! ### Taking a response apart -/

/-- What `response_from_http_text` uses of the `http` crate. -/
structure ResponseBuilder where
  Status : Type
  HeaderName : Type
  HeaderValue : Type
  Builder : Type
  Response : Type
  /-- `StatusCode::from_u16`. -/
  fromU16 : ℕ → Option Status
  /-- `StatusCode::INTERNAL_SERVER_ERROR`. -/
  internalServerError : Status
  /-- `HeaderName::from_bytes`. -/
  fromBytes : String → Option HeaderName
  /-- `HeaderValue::from_str`. -/
  fromStr : String → Option HeaderValue
  /-- `Response::builder` with a status. -/
  status : Status → Builder
  /-- `Builder::header`. -/
  header : Builder → HeaderName → HeaderValue → Builder
  /-- `Builder::header`, with `connection` and `close`. -/
  connectionClose : Builder → Builder
  /-- `Builder::body`, and `expect`. -/
  body : Builder → String → Except String Response

/-- `str::split_once`, at a text that is not empty. -/
def Text.splitOnceText (separator text : String) : Option (String × String) :=
  (windowPosition separator.toList text.toList).map fun pos =>
    (String.ofList (text.toList.take pos),
      String.ofList (text.toList.drop (pos + separator.toList.length)))

namespace ResponseBuilder

variable (H : ResponseBuilder)

/-- A header is set if the crate takes its name and its value. -/
def setHeader (builder : H.Builder) (name value : String) : H.Builder :=
  match H.fromBytes name, H.fromStr value with
  | some name, some value => H.header builder name value
  | _, _ => builder

/-- A line with a colon is a header; the others are passed over. -/
def setLine (builder : H.Builder) (line : String) : H.Builder :=
  match Text.splitOnce ':' line with
  | none => builder
  | some (name, value) => H.setHeader builder (Text.trim name) (Text.trim value)

/-- The status of a number, which is read by `str::parse::<u16>`. -/
def statusOf (code : Option ℕ) : H.Status :=
  ((code.filter fun code => code < 2 ^ 16).bind H.fromU16).getD H.internalServerError

/-- `response_from_http_text`. -/
def responseFromHttpText (response : String) : Except String H.Response :=
  match (Text.splitOnceText "\r\n\r\n" response).or (Text.splitOnceText "\n\n" response) with
  | none => H.body (H.status H.internalServerError) response
  | some (head, body) =>
    let lines := Text.lines head
    let code := (lines.head?.bind fun line => (Text.splitWhitespace line)[1]?).bind parseUsize
    H.body (H.connectionClose ((lines.drop 1).foldl H.setLine (H.status (H.statusOf code)))) body

end ResponseBuilder

/-! ### Texts in lines -/

/-- A header as it is written: with a name and a value in one line, without blanks around them. -/
structure ResponseHeader where
  name : String
  value : String
  name_isVisible : ∀ c ∈ name.toList, 32 < c.toNat ∧ c.toNat < 127 ∧ c ≠ ':'
  value_inLine : ∀ c ∈ value.toList, c ≠ '\n' ∧ c ≠ '\r'
  trim_value : Text.trim value = value

namespace ResponseHeader

variable (header : ResponseHeader)

/-- The line of the header. -/
def line : String := header.name ++ ": " ++ header.value

theorem headLine : HeadLine header.line := by
  have hcolon : ∀ c ∈ ": ".toList, 13 < c.toNat := by decide
  refine ⟨fun hempty => ?_, fun c hc => ?_⟩
  · have hlength := congrArg (fun s : String => s.toList.length) hempty
    simp [line] at hlength
  · simp only [line, String.toList_append, List.mem_append] at hc
    rcases hc with (hc | hc) | hc
    · exact ne_lineEnds_of_lt ((by decide : 13 < 32).trans (header.name_isVisible c hc).1)
    · exact ne_lineEnds_of_lt (hcolon c hc)
    · exact header.value_inLine c hc

/-- **A header** is read as it was written. -/
theorem setLine_line (H : ResponseBuilder) (builder : H.Builder) :
    H.setLine builder header.line = H.setHeader builder header.name header.value := by
  have hline : header.line = header.name ++ String.singleton ':' ++ (" " ++ header.value) := by
    rw [line, ← String.toList_inj]
    simp
  have hcolon : ':' ∉ header.name.toList := fun hmem => (header.name_isVisible _ hmem).2.2 rfl
  have hname : Text.trim header.name = header.name :=
    Text.trim_eq_self fun c hc => Text.isWhitespace_of_visible
      ⟨(header.name_isVisible c hc).1, (header.name_isVisible c hc).2.1⟩
  rw [ResponseBuilder.setLine, hline, Text.splitOnce_of_notMem hcolon]
  simp only [hname, Text.trim_space, header.trim_value]

end ResponseHeader

/-- The response with a status, headers in this order, `connection: close` and a body. -/
def ResponseBuilder.build (H : ResponseBuilder) (code : ℕ) (headers : List ResponseHeader)
    (body : String) :
    Except String H.Response :=
  H.body (H.connectionClose (headers.foldl (fun builder header =>
    H.setHeader builder header.name header.value) (H.status (H.statusOf (some code))))) body

/-- The text of a response. -/
def answerText (status : String) (headers : List ResponseHeader) (body : String) : String :=
  crlfLines (("HTTP/1.1 " ++ status) :: headers.map ResponseHeader.line) ++ "\r\n" ++ body

theorem toList_crlfLines (lines : List String) :
    (crlfLines lines).toList = endLines '\r' '\n' (lines.map String.toList) := by
  induction lines with
  | nil => rfl
  | cons line lines ih => simp [crlfLines, ih, endLines]

theorem crlfLines_concat (lines : List String) (last : String) :
    crlfLines (lines ++ [last]) = crlfLines lines ++ last ++ "\r\n" := by
  induction lines with
  | nil => simp [crlfLines]
  | cons line lines ih =>
    rw [List.cons_append, crlfLines, ih, crlfLines]; simp only [String.append_assoc]

/-- The head of a response, and its body. -/
theorem splitOnceText_crlfLines {lines : List String} {last : String}
    (hlines : ∀ line ∈ lines, HeadLine line) (hlast : HeadLine last) (body : String) :
    Text.splitOnceText "\r\n\r\n" (crlfLines lines ++ last ++ "\r\n\r\n" ++ body) =
      some (crlfLines lines ++ last, body) := by
  have hends : ∀ {line : String}, HeadLine line → line.toList ≠ [] ∧ '\n' ∉ line.toList ∧
      '\r' ∉ line.toList :=
    fun hline => ⟨by simpa using hline.1, fun hmem => (hline.2 _ hmem).1 rfl,
      fun hmem => (hline.2 _ hmem).2 rfl⟩
  have htext : (crlfLines lines ++ last ++ "\r\n\r\n" ++ body).toList =
      endLines '\r' '\n' (lines.map String.toList) ++ last.toList ++ '\r' :: '\n' ::
        '\r' :: '\n' :: body.toList := by
    simp [toList_crlfLines]
  have hfound : windowPosition ['\r', '\n', '\r', '\n']
      (crlfLines lines ++ last ++ "\r\n\r\n" ++ body).toList =
      some (crlfLines lines ++ last).toList.length := by
    rw [htext, String.toList_append, toList_crlfLines]
    refine (windowPosition_endLines (by decide) (fun line hline => ?_) (hends hlast)).1
    obtain ⟨text, hmem, rfl⟩ := List.mem_map.1 hline
    exact hends (hlines text hmem)
  have happend : (crlfLines lines ++ last ++ "\r\n\r\n" ++ body).toList =
      (crlfLines lines ++ last).toList ++ (['\r', '\n', '\r', '\n'] ++ body.toList) := by
    simp
  have hseparator : "\r\n\r\n".toList = ['\r', '\n', '\r', '\n'] := by decide
  rw [Text.splitOnceText, hseparator, hfound, Option.map_some, happend, List.take_left,
    ← List.drop_drop, List.drop_left, List.drop_left, String.ofList_toList, String.ofList_toList]

/-- **A response** is taken apart into what it was made of. -/
theorem responseFromHttpText_answerText (H : ResponseBuilder) {code : ℕ} (hcode : code ≤ usizeMax)
    {reason : String} (hreason : ∀ c ∈ reason.toList, c ≠ '\n' ∧ c ≠ '\r')
    (headers : List ResponseHeader) (body : String) :
    H.responseFromHttpText (answerText (toString code ++ " " ++ reason) headers body) =
      H.build code headers body := by
  have hfirst : HeadLine ("HTTP/1.1 " ++ (toString code ++ " " ++ reason)) := by
    have hversion : ∀ c ∈ "HTTP/1.1 ".toList, 13 < c.toNat := by decide
    have hblank : ∀ c ∈ " ".toList, 13 < c.toNat := by decide
    refine ⟨fun hempty => ?_, fun c hc => ?_⟩
    · have hlength := congrArg (fun s : String => s.toList.length) hempty
      simp at hlength
    · simp only [String.toList_append, List.mem_append] at hc
      rcases hc with hc | (hc | hc) | hc
      · exact ne_lineEnds_of_lt (hversion c hc)
      · have hdigit := Text.isDigit_iff.1 (Text.isDigit_of_mem_toString hc)
        exact ne_lineEnds_of_lt (by omega)
      · exact ne_lineEnds_of_lt (hblank c hc)
      · exact hreason c hc
  have hall : ∀ line ∈ ("HTTP/1.1 " ++ (toString code ++ " " ++ reason)) ::
      headers.map ResponseHeader.line, HeadLine line := by
    rw [List.forall_mem_cons]
    refine ⟨hfirst, fun line hline => ?_⟩
    obtain ⟨header, -, rfl⟩ := List.mem_map.1 hline
    exact header.headLine
  have hparse : parseUsize (toString code) = some code := parseUsize_toString hcode
  have hstatus : (Text.splitWhitespace ("HTTP/1.1 " ++ (toString code ++ " " ++ reason)))[1]? =
      some (toString code) := by
    have hdigits : ∀ c ∈ (toString code).toList, Text.isWhitespace c = false :=
      fun c hc => Text.isWhitespace_of_isDigit (Text.isDigit_of_mem_toString hc)
    have hnonempty : toString code ≠ "" := by
      intro hempty
      rw [hempty] at hparse
      cases hparse
    have hversion : ("HTTP/1.1 " ++ (toString code ++ " " ++ reason)).toList =
        "HTTP/1.1".toList ++ ' ' :: (toString code ++ " " ++ reason).toList := by
      simp
    have hcode : (toString code ++ " " ++ reason).toList =
        (toString code).toList ++ ' ' :: reason.toList := by
      simp
    rw [Text.splitWhitespace_of_first hversion (by decide) (by decide) (by decide),
      Text.splitWhitespace_of_first hcode (by decide) hnonempty hdigits]
    rfl
  rw [answerText]
  obtain hnil | ⟨lines, last, hlines⟩ := List.eq_nil_or_concat
    (("HTTP/1.1 " ++ (toString code ++ " " ++ reason)) :: headers.map ResponseHeader.line)
  · cases hnil
  · rw [List.concat_eq_append] at hlines
    rw [hlines] at hall ⊢
    rw [List.forall_mem_append, List.forall_mem_singleton] at hall
    have htext : crlfLines (lines ++ [last]) ++ "\r\n" ++ body = crlfLines lines ++
        last ++ "\r\n\r\n" ++ body := by
      rw [crlfLines_concat]
      simp [String.append_assoc]
    rw [htext, ResponseBuilder.responseFromHttpText, splitOnceText_crlfLines hall.1 hall.2]
    simp only [Option.some_or]
    rw [lines_crlfLines_last hall.1 hall.2, ← hlines]
    simp only [List.head?_cons, Option.bind_some, hstatus, hparse, List.drop_succ_cons,
      List.drop_zero, List.foldl_map, ResponseHeader.setLine_line, ResponseBuilder.build]

/-! ### The texts of the handler -/

/-- `ok_body_with_headers`. -/
def okBodyWithHeaders (body : String) (extraHeaders : List (String × String)) : String :=
  let response :=
    "HTTP/1.1 200 OK\r\ncontent-type: application/json\r\ncontent-length: " ++
      toString body.utf8ByteSize ++ "\r\n"
  let response := extraHeaders.foldl
    (fun response header => response ++ header.1 ++ ": " ++ header.2 ++ "\r\n") response
  response ++ "\r\n" ++ body

/-- The header `content-type: application/json`. -/
def contentType : ResponseHeader where
  name := "content-type"
  value := "application/json"
  name_isVisible := by decide
  value_inLine := by decide
  trim_value := by decide +kernel

/-- The header `content-length` of a body. -/
def contentLengthOf (body : String) : ResponseHeader where
  name := "content-length"
  value := toString body.utf8ByteSize
  name_isVisible := by decide
  value_inLine c hc := by
    have hdigit := Text.isDigit_iff.1 (Text.isDigit_of_mem_toString hc)
    exact ne_lineEnds_of_lt (by omega)
  trim_value := Text.trim_toString _

theorem httpJsonResponse_eq (status body : String) :
    httpJsonResponse status body = answerText status [contentType, contentLengthOf body] body := by
  rw [← String.toList_inj, httpJsonResponse, answerText]
  simp [crlfLines, ResponseHeader.line, contentType, contentLengthOf]

theorem okBodyWithHeaders_eq (body : String) (extra : List ResponseHeader) :
    okBodyWithHeaders body (extra.map fun header => (header.name, header.value)) =
      answerText "200 OK" (contentType :: contentLengthOf body :: extra) body := by
  have hfold : ∀ response : String,
      (extra.map fun header => (header.name, header.value)).foldl
        (fun response header => response ++ header.1 ++ ": " ++ header.2 ++ "\r\n") response =
        response ++ crlfLines (extra.map ResponseHeader.line) := by
    induction extra with
    | nil => exact fun response => String.append_empty.symm
    | cons header extra ih =>
      intro response
      rw [List.map_cons, List.foldl_cons, ih, List.map_cons, crlfLines, ResponseHeader.line]
      simp only [String.append_assoc]
  rw [okBodyWithHeaders, hfold, answerText, List.map_cons, List.map_cons, crlfLines,
    crlfLines, crlfLines, ← String.toList_inj]
  simp [ResponseHeader.line, contentType, contentLengthOf]

/-- **Responses are sent as they are made**: the builder is given the status, the headers in their
order, `connection: close` after them, and the body that the handler wrote, whatever the body is. -/
theorem response_sent (H : ResponseBuilder) {code : ℕ} (hcode : code ≤ usizeMax) {reason : String}
    (hreason : ∀ c ∈ reason.toList, c ≠ '\n' ∧ c ≠ '\r') (extra : List ResponseHeader)
    (body : String) :
    H.responseFromHttpText (httpJsonResponse (toString code ++ " " ++ reason) body) =
        H.build code [contentType, contentLengthOf body] body ∧
      H.responseFromHttpText
          (okBodyWithHeaders body (extra.map fun header => (header.name, header.value))) =
        H.build 200 (contentType :: contentLengthOf body :: extra) body := by
  constructor
  · rw [httpJsonResponse_eq, responseFromHttpText_answerText H hcode hreason]
  · have hok : "200 OK" = toString 200 ++ " " ++ "OK" := by decide +kernel
    rw [okBodyWithHeaders_eq, hok, responseFromHttpText_answerText H (by decide) (by decide)]

/-- A builder that keeps what it is told, and takes every name and every value. -/
def ResponseBuilder.recording : ResponseBuilder where
  Status := ℕ
  HeaderName := String
  HeaderValue := String
  Builder := ℕ × List (String × String)
  Response := ℕ × List (String × String) × String
  fromU16 := some
  internalServerError := 500
  fromBytes := some
  fromStr := some
  status code := (code, [])
  header builder name value := (builder.1, builder.2 ++ [(name, value)])
  connectionClose builder := (builder.1, builder.2 ++ [("connection", "close")])
  body builder text := .ok (builder.1, builder.2, text)

/-- A body that has an empty line itself. -/
theorem conflict_sent :
    ResponseBuilder.recording.responseFromHttpText
      (httpJsonResponse "409 Conflict" "a: b\r\n\r\nc") =
      .ok (409, [("content-type", "application/json"), ("content-length", "9"),
        ("connection", "close")], "a: b\r\n\r\nc") := by
  have hstatus : "409 Conflict" = toString 409 ++ " " ++ "Conflict" := by decide +kernel
  rw [hstatus, (response_sent .recording (by decide) (by decide) [] "a: b\r\n\r\nc").1]
  rfl

end TraceDB
