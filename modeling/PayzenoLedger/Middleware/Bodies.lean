import PayzenoLedger.Middleware.Redaction

/-!
# Bodies of error responses

The middleware reads the body of an error response only until it has more than the log takes,
and sends on what it has read.  Chunks that come later are lost, and with them the length that
the application declared.
-/

set_option autoImplicit false

namespace PayzenoLedger

open Library

def AppResponse.body (response : AppResponse) : List UInt8 :=
  response.chunks.flatten

/-- Every length that is declared is the length of the body. -/
def LengthFits (headers : List (String × String)) (body : List UInt8) : Prop :=
  ∀ value ∈ headerValues "content-length" headers, value = toString body.length

/-- The client gets the body of the application, under headers that describe it if those of the
application did. `describing` names the headers, besides the length, that describe a body. -/
structure SameBody (describing : List String) (response : AppResponse) (delivered : Delivered) :
    Prop where
  body : delivered.body = response.body
  length : LengthFits response.headers response.body →
    LengthFits delivered.headers delivered.body
  described : ∀ name ∈ describing, name ≠ "content-length" →
    headerValues name delivered.headers = headerValues name response.headers

/-- Nothing comes after the chunk that makes the body too long for the log. -/
def EndsWithin (chunks : List (List UInt8)) : Prop :=
  ∀ before chunk after, chunks = before ++ chunk :: after →
    maxLoggedBodyBytes < (before.flatten ++ chunk).length → after.flatten = []

namespace RedactionMiddleware

/-- All is read exactly if nothing follows a chunk that makes the body too long. -/
theorem readBody_eq_iff (body : List UInt8) (chunks : List (List UInt8)) :
    readBody body chunks = body ++ chunks.flatten ↔
      ∀ before chunk after, chunks = before ++ chunk :: after →
        maxLoggedBodyBytes < (body ++ before.flatten ++ chunk).length → after.flatten = [] := by
  induction chunks generalizing body with
  | nil =>
      refine iff_of_true (List.append_nil body).symm fun before chunk after hchunks => ?_
      cases before <;> cases hchunks
  | cons chunk chunks ih =>
      unfold readBody
      split
      · next hlong =>
          rw [List.flatten_cons, ← List.append_assoc, List.self_eq_append_right]
          constructor
          · intro hnone before other after hchunks _
            cases before with
            | nil =>
                obtain ⟨-, hrest⟩ := List.cons_eq_cons.mp hchunks
                rw [← hrest]
                exact hnone
            | cons first before =>
                have hrest : chunks = before ++ other :: after :=
                  (List.cons_eq_cons.mp hchunks).2
                rw [hrest, List.flatten_append, List.flatten_cons] at hnone
                exact (List.append_eq_nil_iff.mp (List.append_eq_nil_iff.mp hnone).2).2
          · intro hends
            refine hends [] chunk chunks rfl ?_
            rw [List.flatten_nil, List.append_nil]
            exact hlong
      · next hshort =>
          rw [List.flatten_cons, ← List.append_assoc, ih (body ++ chunk)]
          constructor
          · intro hends before other after hchunks hlong
            cases before with
            | nil =>
                obtain ⟨rfl, -⟩ := List.cons_eq_cons.mp hchunks
                rw [List.flatten_nil, List.append_nil] at hlong
                exact absurd hlong hshort
            | cons first before =>
                obtain ⟨rfl, hrest⟩ := List.cons_eq_cons.mp hchunks
                rw [List.flatten_cons, ← List.append_assoc] at hlong
                exact hends before other after hrest hlong
          · intro hends before other after hchunks hlong
            refine hends (chunk :: before) other after (by rw [hchunks, List.cons_append]) ?_
            rw [List.flatten_cons, ← List.append_assoc]
            exact hlong

variable {words : WordChars} {framework : Framework} {enabled : Bool}
  {requestHeaders : List (String × String)} {response : AppResponse}

theorem dispatch_streamed (h : enabled = false ∨ response.status < 400) :
    (dispatch words framework enabled requestHeaders response).1 =
      { status := response.status, headers := response.headers, body := response.body } := by
  unfold dispatch
  rw [if_pos (by simpa using h)]
  rfl

theorem dispatch_read (henabled : enabled = true) (hstatus : 400 ≤ response.status) :
    (dispatch words framework enabled requestHeaders response).1 =
      { status := response.status
        headers := framework.initHeaders response.status (readBody [] response.chunks).length
          (framework.headersDict response.headers)
        body := readBody [] response.chunks } := by
  unfold dispatch
  rw [if_neg (by simp [henabled, hstatus])]

theorem lower_dict (framework : Framework) {headers : List (String × String)}
    (h : LowerNames headers) : LowerNames (framework.headersDict headers) :=
  fun header hheader => h header (framework.dict_mem headers h header hheader)

/-- The response that is made anew says of its body what was said, and the length of it. -/
theorem initHeaders_length (framework : Framework) (response : AppResponse)
    (hstatus : 400 ≤ response.status)
    (h : LengthFits response.headers response.body) :
    LengthFits (framework.initHeaders response.status response.body.length
      (framework.headersDict response.headers)) response.body := by
  intro value hvalue
  rw [framework.init_length _ _ _ (lower_dict framework response.lower) hstatus,
    framework.dict_values _ response.lower] at hvalue
  split at hvalue
  · exact List.mem_singleton.mp hvalue
  · next first values hvalues =>
      rw [← hvalues] at hvalue
      exact h value (List.mem_of_mem_take hvalue)

/-- The body of a response arrives unchanged and described exactly if the response is streamed
through, or nothing follows a chunk that makes the body too long for the log and no header that
describes the body comes more than once. -/
theorem dispatch_sameBody_iff (words : WordChars) (framework : Framework) (enabled : Bool)
    (requestHeaders : List (String × String)) (describing : List String)
    (response : AppResponse) :
    SameBody describing response
        (dispatch words framework enabled requestHeaders response).1 ↔
      enabled = false ∨ response.status < 400 ∨
        (EndsWithin response.chunks ∧ ∀ name ∈ describing, name ≠ "content-length" →
          (headerValues name response.headers).length ≤ 1) := by
  by_cases hstreamed : enabled = false ∨ response.status < 400
  · refine iff_of_true ?_ (hstreamed.imp_right .inl)
    rw [dispatch_streamed hstreamed]
    exact ⟨rfl, id, fun _ _ _ => rfl⟩
  · obtain ⟨henabled, hstatus⟩ := not_or.mp hstreamed
    have henabled : enabled = true := (Bool.not_eq_false enabled).mp henabled
    have hstatus : 400 ≤ response.status := not_lt.mp hstatus
    rw [dispatch_read henabled hstatus]
    have hbody : readBody [] response.chunks = response.body ↔ EndsWithin response.chunks :=
      readBody_eq_iff [] response.chunks
    have hvalues (length : Nat) (name : String) (hname : name ≠ "content-length") :
        headerValues name (framework.initHeaders response.status length
            (framework.headersDict response.headers)) = headerValues name response.headers ↔
          (headerValues name response.headers).length ≤ 1 := by
      rw [framework.init_values _ _ _ (lower_dict framework response.lower) name hname,
        framework.dict_values _ response.lower, List.take_eq_self_iff]
    constructor
    · intro same
      refine .inr (.inr ⟨hbody.mp same.body, fun name hdescribing hname => ?_⟩)
      exact (hvalues _ name hname).mp (same.described name hdescribing hname)
    · rintro (hoff | hlow | ⟨hends, hsingle⟩)
      · exact absurd (.inl hoff) hstreamed
      · exact absurd (.inr hlow) hstreamed
      · have hwhole := hbody.mpr hends
        constructor
        case body => exact hwhole
        case length =>
          dsimp only
          rw [hwhole]
          exact initHeaders_length framework response hstatus
        case described =>
          intro name hdescribing hname
          exact (hvalues _ name hname).mpr (hsingle name hdescribing hname)

end RedactionMiddleware

/-! ## A long error -/

/-- The first value of each name. -/
def firstValues : List (String × String) → List (String × String)
  | [] => []
  | header :: headers =>
      header :: (firstValues headers).filter fun later => later.1 != header.1

theorem mem_firstValues {headers : List (String × String)} {header : String × String}
    (h : header ∈ firstValues headers) : header ∈ headers := by
  induction headers with
  | nil => cases h
  | cons first headers ih =>
      rcases List.mem_cons.mp h with rfl | h
      · exact List.mem_cons_self
      · exact List.mem_cons_of_mem _ (ih (List.mem_of_mem_filter h))

theorem headerValues_cons (name : String) (header : String × String)
    (headers : List (String × String)) :
    headerValues name (header :: headers) =
      if header.1 = name then header.2 :: headerValues name headers
      else headerValues name headers := by
  unfold headerValues
  rw [List.filter_cons]
  by_cases hname : header.1 = name
  · rw [if_pos hname, if_pos (beq_iff_eq.mpr hname), List.map_cons]
  · rw [if_neg hname, if_neg fun h => hname (beq_iff_eq.mp h)]

theorem headerValues_append (name : String) (headers others : List (String × String)) :
    headerValues name (headers ++ others) =
      headerValues name headers ++ headerValues name others := by
  unfold headerValues
  rw [List.filter_append, List.map_append]

theorem headerValues_others (name other : String) (headers : List (String × String)) :
    headerValues name (headers.filter fun header => header.1 != other) =
      if other = name then [] else headerValues name headers := by
  unfold headerValues
  rw [List.filter_filter]
  by_cases hname : other = name
  · rw [if_pos hname, List.map_eq_nil_iff, List.filter_eq_nil_iff]
    intro header _ hboth
    rw [Bool.and_eq_true, beq_iff_eq, bne_iff_ne, hname] at hboth
    exact hboth.2 hboth.1
  · rw [if_neg hname]
    refine congrArg (List.map Prod.snd) (List.filter_congr fun header _ => ?_)
    cases hsame : header.1 == name with
    | false => rfl
    | true =>
        rw [beq_iff_eq.mp hsame]
        exact bne_iff_ne.mpr (Ne.symm hname)

theorem headerValues_firstValues (headers : List (String × String)) (name : String) :
    headerValues name (firstValues headers) = (headerValues name headers).take 1 := by
  induction headers with
  | nil => rfl
  | cons header headers ih =>
      unfold firstValues
      rw [headerValues_cons, headerValues_cons, headerValues_others]
      by_cases hname : header.1 = name
      · rw [if_pos hname, if_pos hname, if_pos hname]
        rfl
      · rw [if_neg hname, if_neg hname, if_neg hname, ih]

/-- The headers of a response that is made of the first values and gets a length if it has
none. -/
def Framework.firstOnly : Framework where
  headersDict := firstValues
  initHeaders _ length headers :=
    if (headerValues "content-length" headers).isEmpty then
      headers ++ [("content-length", toString length)]
    else headers
  dict_mem _ _ _ h := mem_firstValues h
  dict_values headers _ name := headerValues_firstValues headers name
  init_values _ length headers _ name hname := by
    split
    · rw [headerValues_append, headerValues_cons, if_neg (Ne.symm hname)]
      exact List.append_nil _
    · rfl
  init_length _ length headers _ _ := by
    cases hvalues : headerValues "content-length" headers with
    | nil =>
        rw [List.isEmpty_nil, if_pos rfl, headerValues_append, hvalues]
        rfl
    | cons value values => exact hvalues

/-- A body of 8194 bytes that comes in two chunks. -/
def longError : AppResponse where
  status := 502
  headers := [("content-length", "8194"), ("content-type", "application/json")]
  chunks := [List.replicate 8193 0x20, [0x7D]]
  lower := by
    intro header hheader
    rcases List.mem_cons.mp hheader with rfl | hheader
    · decide +kernel
    · rw [List.mem_singleton.mp hheader]
      decide +kernel

/-- Its last byte is lost, and the length that was right is wrong. -/
theorem longError_cut :
    LengthFits longError.headers longError.body ∧
      (RedactionMiddleware.dispatch .known .firstOnly true [] longError).1.body ≠
        longError.body ∧
      ¬ LengthFits (RedactionMiddleware.dispatch .known .firstOnly true [] longError).1.headers
        (RedactionMiddleware.dispatch .known .firstOnly true [] longError).1.body := by
  have hlength : longError.body.length = 8194 := by
    unfold AppResponse.body longError
    rw [List.flatten_cons, List.length_append, List.length_replicate]
    rfl
  have hread : RedactionMiddleware.readBody [] longError.chunks = List.replicate 8193 0x20 := by
    unfold longError RedactionMiddleware.readBody
    rw [if_pos (by rw [List.nil_append, List.length_replicate]; decide), List.nil_append]
  rw [RedactionMiddleware.dispatch_read rfl (by decide), hread]
  refine ⟨?_, ?_, ?_⟩
  · intro value hvalue
    rw [List.mem_singleton.mp hvalue, hlength]
    rfl
  · intro hsame
    have hwrong := congrArg List.length hsame
    rw [hlength, List.length_replicate] at hwrong
    cases hwrong
  · intro hfits
    have hwrong := hfits "8194" (List.mem_cons_self)
    rw [List.length_replicate] at hwrong
    exact absurd hwrong (by decide)

end PayzenoLedger
