import Mathlib.Algebra.BigOperators.Group.List.Basic
import Mathlib.Algebra.Ring.Int.Defs
import PayzenoLedger.Library.Regex
import PayzenoLedger.Library.Strings
import PayzenoLedger.Library.Utf8

/-!
# Redaction

What is headed for a log: card numbers are masked to their first six and last four digits if
they pass the Luhn check, the value of a CVV field is replaced, and so are secret headers.  The
body of an error response is read for this and sent on in a response of its own.
-/

set_option autoImplicit false

namespace PayzenoLedger

open Library

/-! ## Patterns -/

/-- `\d`. -/
def isDecimal (char : Char) : Bool :=
  (digitValue char).isSome

/-- `\w`. Outside ASCII all that is known of it is that it takes in the digits. -/
structure WordChars where
  isWord : Char → Bool
  ascii : ∀ char, char.toNat < 128 → isWord char = (char.isAlphanum || char == '_')
  decimal : ∀ char, isDecimal char = true → isWord char = true

/-- The word characters that are known. -/
def WordChars.known : WordChars where
  isWord char := isDecimal char || (char.toNat < 128 && (char.isAlphanum || char == '_'))
  ascii char h := by
    have hall : ((List.range 128).map Char.ofNat).all (fun char =>
        (isDecimal char || (char.toNat < 128 && (char.isAlphanum || char == '_'))) ==
          (char.isAlphanum || char == '_')) = true := by
      decide +kernel
    have hmem : char ∈ (List.range 128).map Char.ofNat :=
      List.mem_map.mpr ⟨char.toNat, List.mem_range.mpr h, Char.ofNat_toNat char⟩
    exact beq_iff_eq.mp (List.all_eq_true.mp hall char hmem)
  decimal char h := by
    rw [h, Bool.true_or]

/-- `[ -]`. -/
def isSeparator (char : Char) : Bool :=
  char == ' ' || char == '-'

/-- `\b(?:\d[ -]?){12,18}\d\b`. -/
def panPattern (words : WordChars) : Regex :=
  .seq (.boundary words.isWord)
    (.seq (.rep 12 18 (.seq (.one isDecimal) (.rep 0 1 (.one isSeparator))))
      (.seq (.one isDecimal) (.boundary words.isWord)))

/-- A small letter, or another sign, under `re.IGNORECASE`. -/
def foldsTo (letter char : Char) : Bool :=
  char == letter || char == letter.toUpper || (letter == 's' && char == 'ſ') ||
    (letter == 'i' && (char == 'İ' || char == 'ı'))

def ignoringCase : List Char → Regex
  | [] => .empty
  | letter :: letters => .seq (.one (foldsTo letter)) (ignoringCase letters)

/-- `(?:cvc|cvv|cvv2|security_code)`. -/
def cvvKeys : Regex :=
  .alt (ignoringCase "cvc".toList) (.alt (ignoringCase "cvv".toList)
    (.alt (ignoringCase "cvv2".toList) (ignoringCase "security_code".toList)))

def quote : Regex := .one (· == '"')

/-- The key of a CVV field, the colon and the quote that opens the value. -/
def cvvOpening : Regex :=
  .seq quote (.seq cvvKeys (.seq quote (.seq (.star (.one isSpace))
    (.seq (.one (· == ':')) (.seq (.star (.one isSpace)) quote)))))

/-- `\d{3,4}`. -/
def cvvValue : Regex := .rep 3 4 (.one isDecimal)

def cvvPattern : Regex :=
  .seq (.group 1 cvvOpening) (.seq cvvValue (.group 2 quote))

/-- `REDACTED`. -/
def redacted : List Char := "[redacted]".toList

/-! ## Masking -/

/-- What a digit adds to the Luhn sum. -/
def luhnValue (parity index : Nat) (char : Char) : Int :=
  let value := (char.toNat : Int) - 48
  if index % 2 = parity then
    if value * 2 > 9 then value * 2 - 9 else value * 2
  else value

def luhnOk (digits : List Char) : Bool :=
  let parity := digits.length % 2
  let total := (digits.zipIdx.map fun (char, index) => luhnValue parity index char).sum
  total % 10 == 0

def withoutSeparators (raw : List Char) : List Char :=
  raw.filter fun char => !isSeparator char

def maskPan (raw : List Char) : List Char :=
  let digits := withoutSeparators raw
  if luhnOk digits then
    digits.take 6 ++ List.replicate (digits.length - 10) '*' ++ digits.drop (digits.length - 4)
  else raw

/-- Mask any PAN-shaped, Luhn-valid run of digits, and any CVV-keyed field. -/
def redactText (words : WordChars) (value : List Char) : List Char :=
  let scrubbed := (panPattern words).sub (fun hit => maskPan hit.text) value
  cvvPattern.sub (fun hit => hit.group 1 ++ redacted ++ hit.group 2) scrubbed

/-- `SECRET_HEADERS`. -/
def secretHeaders : List String :=
  ["authorization", "x-payzeno-internal-secret", "cookie", "set-cookie", "proxy-authorization"]

def redactHeaders (words : WordChars) (headers : List (String × String)) :
    List (String × String) :=
  headers.map fun (name, value) =>
    (name, if secretHeaders.contains name.toLower then String.ofList redacted
      else String.ofList (redactText words value.toList))

/-! ## The middleware -/

/-- The values of a header, in their order. -/
def headerValues (name : String) (headers : List (String × String)) : List String :=
  (headers.filter fun header => header.1 == name).map Prod.snd

/-- The names of headers are in lower case, as an application sends them. -/
def LowerNames (headers : List (String × String)) : Prop :=
  ∀ header ∈ headers, header.1.toLower = header.1

/-- A response as the application sends it, with the body in chunks. -/
structure AppResponse where
  status : Nat
  headers : List (String × String)
  chunks : List (List UInt8)
  lower : LowerNames headers

/-- The `Headers` and the `Response` of the framework. -/
structure Framework where
  /-- `dict(response.headers)`, which has one value for a name. -/
  headersDict : List (String × String) → List (String × String)
  /-- The headers of `Response(content, status, headers)`, given the length of the content. -/
  initHeaders : Nat → Nat → List (String × String) → List (String × String)
  dict_mem : ∀ headers, LowerNames headers →
    ∀ header ∈ headersDict headers, header ∈ headers
  dict_values : ∀ headers, LowerNames headers → ∀ name,
    headerValues name (headersDict headers) = (headerValues name headers).take 1
  init_values : ∀ status length headers, LowerNames headers → ∀ name, name ≠ "content-length" →
    headerValues name (initHeaders status length headers) = headerValues name headers
  init_length : ∀ status length headers, LowerNames headers → 400 ≤ status →
    headerValues "content-length" (initHeaders status length headers) =
      match headerValues "content-length" headers with
      | [] => [toString length]
      | value :: values => value :: values

/-- What the client receives. -/
structure Delivered where
  status : Nat
  headers : List (String × String)
  body : List UInt8

/-- What the middleware leaves in the state of the request for the log. -/
structure RequestState where
  redactedHeaders : List (String × String)
  redactedErrorBody : Option String

/-- `MAX_LOGGED_BODY_BYTES`. -/
def maxLoggedBodyBytes : Nat := 8192

namespace RedactionMiddleware

/-- The chunks put together until they are too many for the log. -/
def readBody (body : List UInt8) : List (List UInt8) → List UInt8
  | [] => body
  | chunk :: chunks =>
      if maxLoggedBodyBytes < (body ++ chunk).length then body ++ chunk
      else readBody (body ++ chunk) chunks

/-- `RedactionMiddleware.dispatch`, given whether `redact_pan_in_logs` is on. -/
def dispatch (words : WordChars) (framework : Framework) (enabled : Bool)
    (requestHeaders : List (String × String)) (response : AppResponse) :
    Delivered × RequestState :=
  let redactedHeaders :=
    if enabled then redactHeaders words (framework.headersDict requestHeaders)
    else framework.headersDict requestHeaders
  if !enabled ∨ response.status < 400 then
    ({ status := response.status
       headers := response.headers
       body := response.chunks.flatten },
     { redactedHeaders, redactedErrorBody := none })
  else
    let body := readBody [] response.chunks
    let redactedErrorBody :=
      if body.isEmpty then none
      else
        let scrubbed := redactText words (Utf8.decodeReplace body).toList
        some (String.ofList (scrubbed.take maxLoggedBodyBytes))
    ({ status := response.status
       headers := framework.initHeaders response.status body.length
         (framework.headersDict response.headers)
       body },
     { redactedHeaders, redactedErrorBody })

end RedactionMiddleware

end PayzenoLedger
