import Maestro.Text
import Maestro.Refusal

/-!
# Which endpoint a path addressed

A path in, a shape out: which model answers is named by the path, by the body,
or not at all.
-/
namespace Maestro.Proxy

def DEDICATED : List Char := "/models/".toList

def GENERIC : List Char := "/v1/".toList

def LISTING : List Char := "/v1/models".toList

def CATALOGUE : List Char := "/models".toList

def PROPERTIES : List Char := "/props".toList

inductive Endpoint
  | Dedicated (id suffix : List Char)
  | Generic (suffix : List Char)
  | Listing
  | Catalogue
  | Properties
deriving DecidableEq, Repr

/-- A request this router does not serve, and the shapes of the ones it does. -/
def pathMalformed (reason : String) : Refusal := ⟨.PathNotFound,reason⟩

def namedNothing (path : List Char) : Refusal :=
  pathMalformed s!"'{String.ofList path}' names a model with nothing after it: the shape is /models/<model>/<path>"

def notServed (path : List Char) : Refusal :=
  pathMalformed (s!"'{String.ofList path}' is not a path this router serves: the shapes are " ++
    "/models/<model>/<path> and /v1/<path>")

/-- The shape a path addresses. -/
def Endpoint.of (path : List Char) : Except Refusal Endpoint :=
  let bare := Text.trimEndMatches (· = '/') path
  if bare = CATALOGUE then .ok .Catalogue
  else if bare = PROPERTIES then .ok .Properties
  else match Text.stripPrefix DEDICATED path with
    | some rest =>
      match Text.splitOnce '/' rest with
      | some (id,suffix) =>
        if !id.isEmpty && !suffix.isEmpty then .ok (.Dedicated id ('/' :: suffix)) else .error (namedNothing path)
      | none => .error (namedNothing path)
    | none =>
      let bare := path.takeWhile (· ≠ '?')
      if Text.trimEndMatches (· = '/') bare = LISTING then .ok .Listing
      else if GENERIC.isPrefixOf path then .ok (.Generic path)
      else .error (notServed path)

/-- The methods this endpoint answers. -/
def Endpoint.allowed : Endpoint → List String
  | .Listing | .Catalogue | .Properties => ["GET","HEAD","OPTIONS"]
  | .Dedicated _ _ | .Generic _ => ["GET","POST","OPTIONS"]

/-- What an `Allow` header says. -/
def Endpoint.allowedText (self : Endpoint) : String := ", ".intercalate self.allowed

def Endpoint.allows (self : Endpoint) (method : List Char) : Bool :=
  self.allowed.any fun allowed => allowed.toList = method

/-- What the child is asked for. -/
def Endpoint.suffix : Endpoint → List Char
  | .Dedicated _ suffix | .Generic suffix => suffix
  | .Listing => LISTING
  | .Catalogue => CATALOGUE
  | .Properties => PROPERTIES

/-- Whether a child answers here, rather than the router. -/
def Endpoint.childAnswers : Endpoint → Bool
  | .Dedicated _ _ | .Generic _ => true
  | .Listing | .Catalogue | .Properties => false

/-- A path that names a model without a slash, and something after it, addresses
    that model. -/
theorem of_dedicated {id suffix : List Char} (named : id ≠ []) (plain : '/' ∉ id) (more : suffix ≠ []) :
    Endpoint.of (DEDICATED ++ (id ++ '/' :: suffix)) = .ok (.Dedicated id ('/' :: suffix)) := by
  have split : Text.splitOnce '/' (id ++ '/' :: suffix) = some (id,suffix) := Text.splitOnce_eq_some.mpr ⟨rfl,plain⟩
  obtain ⟨c,inside⟩ := List.exists_mem_of_ne_nil id named
  generalize whole : id ++ '/' :: suffix = rest at split
  have kept : c ∈ rest := by
    rw [← whole]
    exact List.mem_append_left _ inside
  have elsewhere : Text.trimEndMatches (· = '/') (DEDICATED ++ rest) ≠ CATALOGUE := by
    have slashed : DEDICATED = CATALOGUE ++ ['/'] := by decide
    intro same
    rw [slashed,List.append_assoc] at same
    have slash := Text.trimmed_off same c (List.mem_cons_of_mem _ kept)
    rw [of_decide_eq_true slash] at inside
    exact plain inside
  have other : Text.trimEndMatches (· = '/') (DEDICATED ++ rest) ≠ PROPERTIES := by
    intro same
    have begins : PROPERTIES <+: DEDICATED ++ rest := same ▸ Text.trimEndMatches_prefix _ _
    rw [List.prefix_iff_eq_take,List.take_append_of_le_length (by decide)] at begins
    revert begins
    decide
  have both : (!id.isEmpty && !suffix.isEmpty) = true := by simp [named,more]
  rw [Endpoint.of]
  simp only [elsewhere,other,if_false,Text.stripPrefix_append,split,both,if_true]

/-- The model a path addresses is named in the path, without a slash. -/
theorem dedicated_of {path id suffix : List Char} (of : Endpoint.of path = .ok (.Dedicated id suffix)) :
    id ≠ [] ∧ '/' ∉ id ∧ ∀ c ∈ id, c ∈ path := by
  unfold Endpoint.of at of
  dsimp only at of
  repeat' split at of
  all_goals cases of
  rename_i rest stripped _ _ split both
  obtain ⟨whole,plain⟩ := Text.splitOnce_eq_some.mp split
  refine ⟨?_,plain,?_⟩
  · rintro rfl
    simp at both
  · intro c inside
    have dropped : rest = path.drop DEDICATED.length := by
      unfold Text.stripPrefix at stripped
      split_ifs at stripped
      simpa using stripped.symm
    refine List.mem_of_mem_drop (i := DEDICATED.length) ?_
    rw [← dropped,whole]
    exact List.mem_append_left _ inside

/-- A path on the generic endpoint is passed on as it is. -/
theorem of_generic {path suffix : List Char} (of : Endpoint.of path = .ok (.Generic suffix)) :
    suffix = path ∧ GENERIC <+: path := by
  unfold Endpoint.of at of
  dsimp only at of
  repeat' split at of
  all_goals cases of
  exact ⟨rfl,List.isPrefixOf_iff_prefix.mp ‹_›⟩

/-- Every refusal of a path says that the path is none the router serves. -/
theorem endpoint_refused {path : List Char} {refusal : Refusal} (refused : Endpoint.of path = .error refusal) :
    refusal.cause = .PathNotFound := by
  unfold Endpoint.of at refused
  dsimp only at refused
  repeat' split at refused
  all_goals cases refused
  all_goals rfl

/-- What a child is asked for carries no white space when the path does not. -/
theorem suffix_plain {path : List Char} {endpoint : Endpoint} (of : Endpoint.of path = .ok endpoint)
    (plain : ∀ c ∈ path, Text.whiteSpace c = false) : ∀ c ∈ endpoint.suffix, Text.whiteSpace c = false := by
  unfold Endpoint.of at of
  dsimp only at of
  repeat' split at of
  all_goals cases of
  · exact Text.forall_mem_of_all (by decide)
  · exact Text.forall_mem_of_all (by decide)
  · -- The suffix of a dedicated path is what follows its second slash.
    rename_i rest stripped _ id suffix split _
    have whole := (Text.splitOnce_eq_some.mp split).1
    intro c member
    rcases List.mem_cons.mp member with rfl | inside
    · decide
    · have dropped : rest = path.drop DEDICATED.length := by
        unfold Text.stripPrefix at stripped
        split_ifs at stripped
        simpa using stripped.symm
      refine plain c (List.mem_of_mem_drop (i := DEDICATED.length) ?_)
      rw [← dropped,whole]
      simp [inside]
  · exact Text.forall_mem_of_all (by decide)
  · exact plain

end Maestro.Proxy
