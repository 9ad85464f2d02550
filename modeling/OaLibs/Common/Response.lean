import OaLibs.Common.AppError
import OaLibs.Common.Pagination
import OaLibs.Common.Serde

/-!
# Response bodies

The bodies that the services answer with, as JSON: the problem details of an error and the pages of
a list. A body is read back whatever the order of its members, and whatever else it holds.

* `AppError.problem`, `AppError.intoResponse`: how an error is answered;
* `ProblemDetails.deserialize_of_writes`: the details are read back;
* `told_apart_iff`: two errors have different bodies, except that all internal errors have one;
* `Page`, `CursorPage`: the two kinds of pages and their derived readers;
* `rows_of_bodies`: the bodies of as many pages as the first one announces hold all rows.
-/

namespace OaLibs

open Serde

/-! ### Field errors -/

namespace FieldError

def fields : List String := ["field", "message"]

def members (err : FieldError) : List (String × Json) :=
  [("field", .string err.field), ("message", .string err.message)]

def serialize (err : FieldError) : Json := .object err.members

/-- Reading an object: unknown members are ignored. -/
def visitMap (members : List (String × Json)) : Option FieldError := do
  let field ← member "field" Json.asStr none members
  let message ← member "message" Json.asStr none members
  return ⟨field, message⟩

/-- Reading an array. -/
def visitSeq : List Json → Option FieldError
  | [field, message] => do return ⟨← field.asStr, ← message.asStr⟩
  | _ => none

def deserialize : Json → Option FieldError
  | .object members => visitMap members
  | .array elems => visitSeq elems
  | _ => none

theorem deserialize_of_writes {err : FieldError} {v : Json} (h : Writes fields err.members v) :
    deserialize v = some err := by
  obtain ⟨ms, rfl, hmember⟩ := h.member_eq
  simp only [deserialize, visitMap]
  rw [hmember "field" _ _ (by decide), hmember "message" _ _ (by decide)]
  simp [member, members, Json.asStr]

end FieldError

/-! ### Problem details -/

/-- The body of an error response. -/
structure ProblemDetails where
  typeUri : String
  title : String
  status : UInt16
  detail : String
  instance_ : Option String
  code : String
  errors : Option (List FieldError)
  deriving DecidableEq

namespace ProblemDetails

def fields : List String := ["type", "title", "status", "detail", "instance", "code", "errors"]

/-- The members of the object, in the order of the struct, with the values of the field errors. -/
def membersWith (p : ProblemDetails) (errors : Option (List Json)) : List (String × Json) :=
  [("type", .string p.typeUri), ("title", .string p.title),
    ("status", unsigned p.status.toNat), ("detail", .string p.detail)] ++
  optional "instance" .string p.instance_ ++ [("code", .string p.code)] ++
  optional "errors" .array errors

def serialize (p : ProblemDetails) : Json :=
  .object (p.membersWith (p.errors.map fun errs => errs.map FieldError.serialize))

/-- Reading an object: unknown members are ignored. -/
def visitMap (members : List (String × Json)) : Option ProblemDetails := do
  let typeUri ← member "type" Json.asStr none members
  let title ← member "title" Json.asStr none members
  let status ← member "status" (asUnsigned 16) none members
  let detail ← member "detail" Json.asStr none members
  let instance_ ← member "instance" (asOption Json.asStr) (some none) members
  let code ← member "code" Json.asStr none members
  let errors ← member "errors" (asOption (asVec FieldError.deserialize)) (some none) members
  return ⟨typeUri, title, UInt16.ofNat status, detail, instance_, code, errors⟩

/-- Reading an array: only fields with a default could be missing, and there are none. -/
def visitSeq : List Json → Option ProblemDetails
  | [typeUri, title, status, detail, instance_, code, errors] => do
    return ⟨← typeUri.asStr, ← title.asStr, UInt16.ofNat (← asUnsigned 16 status),
      ← detail.asStr, ← asOption Json.asStr instance_, ← code.asStr,
      ← asOption (asVec FieldError.deserialize) errors⟩
  | _ => none

def deserialize : Json → Option ProblemDetails
  | .object members => visitMap members
  | .array elems => visitSeq elems
  | _ => none

/-- A document with these details: they and each field error may have their members in any order,
and members of other names. -/
def WrittenAs (p : ProblemDetails) (doc : Json) : Prop :=
  ∃ errors : Option (List Json),
    Option.Rel (List.Forall₂ fun err v => Writes FieldError.fields (FieldError.members err) v)
      p.errors errors ∧ Writes fields (p.membersWith errors) doc

theorem writtenAs_serialize (p : ProblemDetails) : p.WrittenAs p.serialize := by
  refine ⟨_, ?_, writes_object _ _⟩
  cases p.errors with
  | none => exact .none
  | some errs =>
    refine .some ?_
    rw [List.forall₂_map_right_iff]
    exact List.forall₂_same.2 fun err _ => writes_object _ _

/-- A document gives back its details. -/
theorem deserialize_of_writes {p : ProblemDetails} {doc : Json} (h : p.WrittenAs doc) :
    deserialize doc = some p := by
  obtain ⟨errors, herrors, hdoc⟩ := h
  obtain ⟨ms, rfl, hmember⟩ := hdoc.member_eq
  have hstatus : asUnsigned 16 (unsigned p.status.toNat) = some p.status.toNat :=
    asUnsigned_unsigned (by decide) p.status.toNat_lt
  have hinstance : member "instance" (asOption Json.asStr) (some none) (p.membersWith errors) =
      some p.instance_ := by
    cases h : p.instance_ <;> simp [member, membersWith, h, asOption, Json.asStr]
  have hread : member "errors" (asOption (asVec FieldError.deserialize)) (some none)
      (p.membersWith errors) = some p.errors := by
    generalize p.errors = errs at herrors
    cases herrors with
    | none => simp [member, membersWith]
    | some hvs =>
      have hvec := asVec_of_forall₂ (hvs.imp fun _ _ hv => FieldError.deserialize_of_writes hv)
      simp [member, membersWith, asOption, hvec]
  simp only [deserialize, visitMap]
  rw [hmember "type" _ _ (by decide), hmember "title" _ _ (by decide),
    hmember "status" _ _ (by decide), hmember "detail" _ _ (by decide),
    hmember "instance" _ _ (by decide), hmember "code" _ _ (by decide),
    hmember "errors" _ _ (by decide), hinstance, hread]
  simp [member, membersWith, Json.asStr, hstatus]

end ProblemDetails

/-! ### Errors as responses -/

/-- The problem details of an error. -/
def AppError.problem (err : AppError) : ProblemDetails :=
  let (title, detail, errors) : String × String × Option (List FieldError) :=
    match err with
    | .badRequest _ detail => ("Bad Request", detail, none)
    | .unauthorized _ detail => ("Unauthorized", detail, none)
    | .forbidden _ detail => ("Forbidden", detail, none)
    | .notFound _ detail => ("Not Found", detail, none)
    | .conflict _ detail => ("Conflict", detail, none)
    | .tooManyRequests _ detail => ("Too Many Requests", detail, none)
    | .unprocessable _ detail errors => ("Unprocessable Entity", detail, some errors)
    | .internal _ => ("Internal Server Error", "服务器内部错误", none)
  { typeUri := "https://club-oa.local/errors/" ++ err.code
    title
    status := UInt16.ofNat err.status
    detail
    instance_ := none
    code := err.code
    errors }

/-- A response: its status and its body. -/
structure Response where
  status : ℕ
  body : Json

/-- The response to an error, and the lines that go to the log. -/
def AppError.intoResponse (err : AppError) : Response × List String :=
  let log := match err with
    | .internal text => [text]
    | _ => []
  (⟨err.status, err.problem.serialize⟩, log)

/-- The status that a body names is the status of the response. -/
theorem AppError.status_problem (err : AppError) : err.problem.status.toNat = err.status := by
  cases err <;> rfl

/-- The details tell everything about an error, except that they say the same of all internal
errors. -/
theorem AppError.problem_eq_iff {err err' : AppError} :
    err.problem = err'.problem ↔
      err = err' ∨ ∃ text text', err = .internal text ∧ err' = .internal text' := by
  constructor
  · intro h
    have hstatus : err.status = err'.status := by
      rw [← err.status_problem, h, err'.status_problem]
    have hcode : err.code = err'.code := congrArg ProblemDetails.code h
    have hdetail : err.problem.detail = err'.problem.detail := congrArg ProblemDetails.detail h
    have herrors : err.problem.errors = err'.problem.errors := congrArg ProblemDetails.errors h
    clear h
    -- the status tells the constructor
    cases err <;> cases err' <;> first
      | exact .inl (congrArg₂ _ hcode hdetail)
      | exact .inl (congr (congrArg₂ AppError.unprocessable hcode hdetail)
          (Option.some.inj herrors))
      | exact .inr ⟨_, _, rfl, rfl⟩
      | exact absurd hstatus (by simp [AppError.status])
  · rintro (rfl | ⟨text, text', rfl, rfl⟩)
    · rfl
    · rfl

/-- **Two errors may be answered with one body only if they are equal or both internal**, and then
they are; a client that reads a body has the details of the error. -/
theorem told_apart_iff (err err' : AppError) :
    ((∃ doc, err.problem.WrittenAs doc ∧ err'.problem.WrittenAs doc) ↔
      err = err' ∨ ∃ text text', err = .internal text ∧ err' = .internal text') ∧
    (∀ doc, err.problem.WrittenAs doc → ProblemDetails.deserialize doc = some err.problem) := by
  refine ⟨?_, fun doc hdoc => ProblemDetails.deserialize_of_writes hdoc⟩
  rw [← AppError.problem_eq_iff]
  constructor
  · rintro ⟨doc, hdoc, hdoc'⟩
    have hread := ProblemDetails.deserialize_of_writes hdoc
    rw [ProblemDetails.deserialize_of_writes hdoc', Option.some.injEq] at hread
    exact hread.symm
  · intro h
    refine ⟨err.problem.serialize, err.problem.writtenAs_serialize, ?_⟩
    rw [h]
    exact err'.problem.writtenAs_serialize

/-! ### Pages -/

namespace Pagination

variable {α : Type}

namespace Page

def fields : List String := ["items", "total", "page", "pageSize"]

/-- The members of the object, in the order of the struct, with the values of the items. -/
def membersWith (p : Page α) (items : List Json) : List (String × Json) :=
  [("items", .array items), ("total", i64 p.total), ("page", unsigned p.page.toNat),
    ("pageSize", unsigned p.pageSize.toNat)]

def serialize (write : α → Json) (p : Page α) : Json := .object (p.membersWith (p.items.map write))

variable (read : Json → Option α)

/-- Reading an object: unknown members are ignored. -/
def visitMap (members : List (String × Json)) : Option (Page α) := do
  let items ← member "items" (asVec read) none members
  let total ← member "total" asI64 none members
  let page ← member "page" (asUnsigned 32) none members
  let pageSize ← member "pageSize" (asUnsigned 32) none members
  return ⟨items, total, UInt32.ofNat page, UInt32.ofNat pageSize⟩

/-- Reading an array. -/
def visitSeq : List Json → Option (Page α)
  | [items, total, page, pageSize] => do
    return ⟨← asVec read items, ← asI64 total, UInt32.ofNat (← asUnsigned 32 page),
      UInt32.ofNat (← asUnsigned 32 pageSize)⟩
  | _ => none

def deserialize : Json → Option (Page α)
  | .object members => visitMap read members
  | .array elems => visitSeq read elems
  | _ => none

variable {read}

/-- A page is read back from any body that writes it, if its items are. -/
theorem deserialize_of_writes {p : Page α} {vs : List Json} {doc : Json}
    (hvs : List.Forall₂ (fun a v => read v = some a) p.items vs)
    (h : Writes fields (p.membersWith vs) doc) : deserialize read doc = some p := by
  obtain ⟨ms, rfl, hmember⟩ := h.member_eq
  have hitems := asVec_of_forall₂ hvs
  have hnumber : ∀ n : UInt32, asUnsigned 32 (unsigned n.toNat) = some n.toNat :=
    fun n => asUnsigned_unsigned (by decide) n.toNat_lt
  simp only [deserialize, visitMap]
  rw [hmember "items" _ _ (by decide), hmember "total" _ _ (by decide),
    hmember "page" _ _ (by decide), hmember "pageSize" _ _ (by decide)]
  simp [member, membersWith, hitems, hnumber]

end Page

/-- The answer to a cursor request. -/
structure CursorPage (α : Type) where
  items : List α
  nextCursor : Option String

namespace CursorPage

def new (items : List α) (nextCursor : Option String) : CursorPage α := { items, nextCursor }

/-- The only page. -/
def single (items : List α) : CursorPage α := { items, nextCursor := none }

def fields : List String := ["items", "nextCursor"]

/-- The members of the object, with the values of the items; there is a cursor even if it is
null. -/
def membersWith (p : CursorPage α) (items : List Json) : List (String × Json) :=
  [("items", .array items), ("nextCursor", p.nextCursor.elim .null .string)]

def serialize (write : α → Json) (p : CursorPage α) : Json :=
  .object (p.membersWith (p.items.map write))

variable (read : Json → Option α)

/-- Reading an object: unknown members are ignored. -/
def visitMap (members : List (String × Json)) : Option (CursorPage α) := do
  let items ← member "items" (asVec read) none members
  let nextCursor ← member "nextCursor" (asOption Json.asStr) (some none) members
  return ⟨items, nextCursor⟩

/-- Reading an array. -/
def visitSeq : List Json → Option (CursorPage α)
  | [items, nextCursor] => do return ⟨← asVec read items, ← asOption Json.asStr nextCursor⟩
  | _ => none

def deserialize : Json → Option (CursorPage α)
  | .object members => visitMap read members
  | .array elems => visitSeq read elems
  | _ => none

variable {read}

theorem deserialize_of_writes {p : CursorPage α} {vs : List Json} {doc : Json}
    (hvs : List.Forall₂ (fun a v => read v = some a) p.items vs)
    (h : Writes fields (p.membersWith vs) doc) : deserialize read doc = some p := by
  obtain ⟨ms, rfl, hmember⟩ := h.member_eq
  have hitems := asVec_of_forall₂ hvs
  have hcursor : asOption Json.asStr (p.nextCursor.elim .null .string) = some p.nextCursor := by
    cases p.nextCursor <;> rfl
  simp only [deserialize, visitMap]
  rw [hmember "items" _ _ (by decide), hmember "nextCursor" _ _ (by decide)]
  simp [member, membersWith, hitems, hcursor]

end CursorPage

/-- A body that answers the request for page `k + 1`. -/
def Answers (m : MachineInt.OverflowMode) (read : Json → Option α) (size : Option UInt32)
    (rows : List α) (total : Int64) (k : ℕ) (doc : Json) : Prop :=
  ∃ items vs, fetchPage m ⟨some (UInt32.ofNat (k + 1)), size⟩ rows = some items ∧
    List.Forall₂ (fun a v => read v = some a) items vs ∧
    Writes Page.fields
      ((Page.new items total ⟨some (UInt32.ofNat (k + 1)), size⟩).membersWith vs) doc

/-- The number of pages that an answer announces. -/
def Page.count (p : Page α) : ℕ := (p.total.toInt.toNat + p.pageSize.toNat - 1) / p.pageSize.toNat

variable {m : MachineInt.OverflowMode} {read : Json → Option α} {size : Option UInt32}
  {rows : List α} {total : Int64} {k : ℕ} {doc : Json}

/-- What a client reads in the body of a page. -/
theorem read_of_answers (hk : k + 1 < 2 ^ 32) (h : Answers m read size rows total k doc) :
    ∃ p, Page.deserialize read doc = some p ∧
      p.items = Slices.slice (normalizeLimit size).toNat k rows ∧ p.total = total ∧
      p.page.toNat = k + 1 ∧ p.pageSize = normalizeLimit size := by
  obtain ⟨items, vs, hfetch, hvs, hdoc⟩ := h
  rw [fetchPage_ofNat hk] at hfetch
  refine ⟨_, Page.deserialize_of_writes hvs hdoc, (Option.some.inj hfetch).symm, rfl, ?_, rfl⟩
  show (page ⟨some (UInt32.ofNat (k + 1)), size⟩).toNat = k + 1
  rw [page_of_ne_zero (ofNat_succ_ne_zero hk), toNat_ofNat_succ hk]

/-- **Every body announces the same number of pages, and the bodies of that many pages hold all
rows.** -/
theorem rows_of_bodies (read : Json → Option α) (size : Option UInt32) (rows : List α)
    (total : Int64) (htotal : total.toInt = rows.length) (docs : ℕ → Json)
    (n : ℕ) (hn : n = (rows.length + (normalizeLimit size).toNat - 1) / (normalizeLimit size).toNat)
    (hlt : n < 2 ^ 32) (hdocs : ∀ k < n, Answers m read size rows total k (docs k)) :
    (∀ k < n, ∃ p, Page.deserialize read (docs k) = some p ∧ p.count = n ∧
      p.page.toNat = k + 1) ∧
    ((List.range n).mapM fun k => (Page.deserialize read (docs k)).map Page.items).map
      List.flatten = some rows := by
  have hread : ∀ k < n, ∃ p, Page.deserialize read (docs k) = some p ∧
      p.items = Slices.slice (normalizeLimit size).toNat k rows ∧ p.total = total ∧
      p.page.toNat = k + 1 ∧ p.pageSize = normalizeLimit size :=
    fun k hk => read_of_answers (by omega) (hdocs k hk)
  have hpos := normalizeLimit_pos size
  constructor
  · intro k hk
    obtain ⟨p, hp, -, hptotal, hpage, hsize⟩ := hread k hk
    refine ⟨p, hp, ?_, hpage⟩
    rw [Page.count, hptotal, hsize, htotal, Int.toNat_natCast, hn]
  · have hfetch : ∀ k < n, (Page.deserialize read (docs k)).map Page.items =
        some (Slices.slice (normalizeLimit size).toNat k rows) := by
      intro k hk
      obtain ⟨p, hp, hitems, -⟩ := hread k hk
      rw [hp, Option.map_some, hitems]
    rw [Slices.flatten_fetched hfetch]
    -- as many pages reach the end of the rows
    have hdiv := Nat.lt_div_mul_add hpos (a := rows.length + (normalizeLimit size).toNat - 1)
    have hreach : rows.length ≤ n * (normalizeLimit size).toNat := by
      rw [hn]
      omega
    rw [List.take_of_length_le hreach]

/-- Three rows on pages of two. -/
def sampleRows : List Bool := [true, false, true]

/-- The body of a page of them, with the total first and a member that no field reads. -/
def sampleBody (k : ℕ) : Json :=
  .object [("total", i64 3), ("items", .array ((Slices.slice 2 k sampleRows).map .bool)),
    ("page", unsigned (k + 1)), ("pageSize", unsigned 2), ("tookMs", unsigned 4)]

theorem rows_of_bodies_sampleBody :
    ((List.range 2).mapM fun k => (Page.deserialize Json.asBool (sampleBody k)).map Page.items).map
      List.flatten = some sampleRows := by
  refine (rows_of_bodies (m := .checked) Json.asBool (some 2) sampleRows 3 (by decide) sampleBody 2
    (by decide) (by decide) fun k hk => ?_).2
  have hperm : ∀ (a b c d e : String × Json), [a, b, c, d, e].Perm ([b, a, c, d] ++ [e]) :=
    fun a b c d e => List.Perm.swap b a [c, d, e]
  have hforeign : ∀ kv ∈ [("tookMs", unsigned 4)], kv.1 ∉ Page.fields := by
    intro kv hkv
    rw [List.mem_singleton.1 hkv]
    decide
  have hitems : ∀ items : List Bool,
      List.Forall₂ (fun a v => Json.asBool v = some a) items (items.map Json.bool) := by
    intro items
    rw [List.forall₂_map_right_iff]
    exact List.forall₂_same.2 fun _ _ => rfl
  interval_cases k
  · exact ⟨[true, false], _, by decide, hitems _, _, _, rfl, hperm _ _ _ _ _, hforeign⟩
  · exact ⟨[true], _, by decide, hitems _, _, _, rfl, hperm _ _ _ _ _, hforeign⟩

end Pagination

end OaLibs
