import PathQuery.Proofs.Execution.Locality
import PathQuery.Proofs.Grammar.Path
import PathQuery.Proofs.Lexing.Layout
import PathQuery.Query

/-! Paths of names alone, such as `$.a.b`.
Their tokens are a point and a name in turn, whatever else the name may stand for elsewhere. So they
compile for all names that are identifiers, and they come to the value at the end of the names. -/
namespace PathQuery

/-- Names with a point in front of each. -/
def dottedChars (names : List String) : List Char := names.flatMap fun name => '.' :: name.toList

/-- The path text that goes along names from the root. -/
def dottedPath (names : List String) : String := String.ofList ('$' :: dottedChars names)

/-- The tokens of names with a point in front of each. -/
def dottedTokens (names : List String) : List Token :=
  names.flatMap fun name => [.symbol .dot, .identifier name]

variable {names : List String}

/-! ## Tokens -/

namespace Token

variable {signed : Bool} {cs : List Char}

/-- No character of an identifier follows an identifier among dotted names. -/
theorem head_dottedChars (names : List String) :
    ∀ c ∈ (dottedChars names).head?, inIdentifier c = false := by
  cases names with
  | nil => simp [dottedChars]
  | cons name names =>
    have hpoint : inIdentifier '.' = false := by decide
    simpa [dottedChars] using hpoint

/-- A point is a symbol by itself unless another one follows. -/
theorem read?_dot (h : ∀ c ∈ cs.head?, c ≠ '.') :
    read? signed ('.' :: cs) = some (.symbol .dot, cs) := by
  have hq : readQuoted? ('.' :: cs) = none := readQuoted?_eq_none (by decide)
  have hn : readNumber? signed ('.' :: cs) = none := readNumber?_eq_none (by decide) (by decide)
  have hc : readCoercion? ('.' :: cs) = none := readCoercion?_eq_none (by decide)
  have hs : readSymbol? ('.' :: cs) = some (.dot, cs) := by
    cases cs with
    | nil => rfl
    | cons c cs =>
      have hne : ¬ '.' = c := (h c rfl).symm
      simp only [readSymbol?, symbols, List.findSome?_cons]
      simp [Symbol.spelling, hne]
  simp [read?, hq, hn, hc, hs]

theorem readAll_dotted (h : ∀ name ∈ names, isIdentifier name = true) :
    readAll signed (dottedChars names) = .ok (dottedTokens names ++ [.finish]) := by
  induction names generalizing signed with
  | nil => exact readAll_of_nil rfl
  | cons name names ih =>
    obtain ⟨hname, hnames⟩ := List.forall_mem_cons.mp h
    obtain ⟨c, cs, hchars, hc, hcs⟩ := isIdentifier_eq_true hname
    have hpoint : read? signed ('.' :: (name.toList ++ dottedChars names)) =
        some (.symbol .dot, name.toList ++ dottedChars names) := by
      refine read?_dot ?_
      rw [hchars]
      simpa using startsIdentifier_ne hc rfl
    have hword : read? true (name.toList ++ dottedChars names) =
        some (.identifier name, dottedChars names) := by
      have hread : read? true (c :: cs ++ dottedChars names) =
          some (.identifier (String.ofList (c :: cs)), dottedChars names) :=
        read?_identifier hc hcs (head_dottedChars names)
      rwa [← hchars, String.ofList_toList] at hread
    have hdot : readAll signed (dottedChars (name :: names)) =
        (readAll true (name.toList ++ dottedChars names)).map (.symbol .dot :: ·) :=
      readAll_adjacent (.symbol .dot) hpoint
    have hrest : readAll true (name.toList ++ dottedChars names) =
        (readAll false (dottedChars names)).map (.identifier name :: ·) :=
      readAll_adjacent (.identifier hname) hword
    rw [hdot, hrest, ih hnames]
    rfl

theorem ofText_dottedPath (h : ∀ name ∈ names, isIdentifier name = true) :
    ofText (dottedPath names) = .ok (.symbol .root :: (dottedTokens names ++ [.finish])) := by
  have hroot : read? true ('$' :: dottedChars names) = some (.symbol .root, dottedChars names) :=
    rfl
  have hall : readAll true ('$' :: dottedChars names) =
      (readAll false (dottedChars names)).map (.symbol .root :: ·) :=
    readAll_adjacent (.symbol .root) hroot
  rw [ofText, dottedPath, String.toList_ofList, hall, readAll_dotted h]
  rfl

end Token

/-! ## Steps -/

theorem Step.ofTokens_dotted (names : List String) :
    ofTokens (.symbol .root :: (dottedTokens names ++ [.finish])) =
      .ok (.root :: names.map .member) := by
  let segments : List Grammar.Segment := names.map fun name => .dot (.name name)
  have hbare : Grammar.BareAllowed segments :=
    Grammar.bareAllowed_of_forall (by simp [segments])
  rw [Grammar.ofTokens_iff_derivation]
  refine ⟨⟨segments, hbare⟩, [], ?_, ?_⟩
  · simp [Grammar.Path.tokens, segments, dottedTokens, List.flatMap_map, Grammar.Segment.tokens,
      Grammar.Member.token]
  · rw [List.map_eq_flatMap]
    simp [Grammar.Path.steps, segments, List.flatMap_map, Grammar.Segment.steps,
      Grammar.Member.step]

/-! ## Results -/

/-- Following names is looking up one property after the other. -/
theorem Json.follow_names (names : List String) (v : Json) :
    v.follow (names.map .name) = names.foldlM (fun w name => w.property name) v := by
  rw [follow, List.foldlM_map]
  rfl

namespace Query

/-- A path of identifiers always compiles, and it comes to the value that the properties with these
names lead to, one after the other, or to null if one of them is absent. -/
theorem run_dottedPath (h : ∀ name ∈ names, isIdentifier name = true) (document : Json) :
    (compile (dottedPath names)).map (fun q => q.run document) =
      .ok ((names.foldlM (fun v name => Json.property name v) document).getD .null) := by
  have hcompile : compile (dottedPath names) =
      .ok ⟨dottedPath names, .root :: names.map .member⟩ := by
    simp only [compile, parse, Token.ofText_dottedPath h, bind, Except.bind, Step.ofTokens_dotted,
      Except.mapError, pure, Except.pure]
  have hrun : Step.execute (.root :: names.map .member) document =
      ((document.follow (names.map .name)).getD .null) := by
    have hexecute : Step.execute (.root :: names.map .member ++ []) document =
        (Step.run document [] ⟨(document.follow (names.map .name)).toList, .single⟩).result :=
      Step.execute_root_names names document
    rw [List.append_nil] at hexecute
    rw [hexecute]
    cases document.follow (names.map .name) <;> rfl
  rw [hcompile, Except.map, run, hrun, Json.follow_names]

/-- Names that mean something else elsewhere, and a length at their end. -/
theorem run_dottedPath_sample :
    let names := ["Number", "null", "length"]
    let document : Json := .object [("Number", .object [("null", .array [.null, .array []])])]
    (∀ name ∈ names, isIdentifier name = true) ∧ dottedPath names = "$.Number.null.length" ∧
    (compile "$.Number.null.length").map (fun q => q.run document) = .ok (.ofNat 2) ∧
    (compile "$.Number.null.length").map (fun q => q.run .null) = .ok .null := by
  intro names document
  have h : ∀ name ∈ names, isIdentifier name = true := by decide
  have hpath : dottedPath names = "$.Number.null.length" := rfl
  have hdocument := run_dottedPath h document
  have hnull := run_dottedPath h .null
  rw [hpath] at hdocument hnull
  exact ⟨h, hpath, hdocument, hnull⟩

end Query
end PathQuery
