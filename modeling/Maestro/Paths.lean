import Maestro.Disk
import Mathlib.Data.List.Sort

/-!
# What joining does to the names of a path

A location that ends in a name ends in it under any base, and its components
come behind those of the base.
-/
namespace Maestro.Path

/-! ## The name at the end -/

/-- What is in front of the end of a path does not change how the end is
    trimmed, once something other than a dot is left of it. -/
theorem trimBack_append {back : OsStr} (front : OsStr) (left : trimBack back ≠ []) (undotted : trimBack back ≠ [DOT]) :
    trimBack (back ++ front) = trimBack back ++ front := by
  induction back with
  | nil => exact absurd rfl left
  | cons last rest ih =>
    rw [trimBack] at left undotted ⊢
    rw [List.cons_append,trimBack]
    by_cases slash : last = SLASH
    · rw [if_pos slash] at left undotted ⊢
      rw [if_pos slash]
      exact ih left undotted
    rw [if_neg slash] at left undotted ⊢
    rw [if_neg slash]
    cases rest with
    | nil =>
      have plain : ¬ last = DOT := by
        rintro rfl
        exact undotted (if_neg (by simp))
      simp [plain]
    | cons next rest =>
      by_cases dotted : last = DOT ∧ (next :: rest).head? = some SLASH
      · rw [if_pos dotted] at left undotted ⊢
        exact (if_pos dotted).trans (ih left undotted)
      · rw [if_neg dotted]
        exact if_neg dotted

/-- The end of a path, from its last name on. -/
def lastName (back : OsStr) : OsStr := (trimBack back).takeWhile (· ≠ SLASH)

theorem fileName_eq_some {path name : OsStr} : fileName path = some name ↔
    name = (lastName path.reverse).reverse ∧ name ≠ [] ∧ name ≠ [DOT] ∧ name ≠ [DOT,DOT] := by
  unfold fileName lastName
  dsimp only
  split_ifs with unnamed
  · refine iff_of_false (by simp) ?_
    rintro ⟨rfl,some,plain,inside⟩
    rcases unnamed with is | is | is
    · exact some is
    · exact plain is
    · exact inside is
  · obtain ⟨some,rest⟩ := not_or.mp unnamed
    obtain ⟨plain,inside⟩ := not_or.mp rest
    constructor
    · intro is
      cases is
      exact ⟨rfl,some,plain,inside⟩
    · rintro ⟨rfl,_⟩
      rfl

/-- A location that ends in a name ends in it under any base. -/
theorem fileName_join {location name : OsStr} (named : fileName location = some name) (base : OsStr) :
    fileName (join base location) = some name := by
  obtain ⟨is,some,plain,inside⟩ := fileName_eq_some.mp named
  have left : trimBack location.reverse ≠ [] := by
    intro empty
    rw [lastName,empty] at is
    exact some is
  have undotted : trimBack location.reverse ≠ [DOT] := by
    intro dotted
    rw [lastName,dotted] at is
    exact plain is
  -- A slash, or nothing, stands between the location and what is in front of it.
  have behind (front : OsStr) (ends : front = [] ∨ front.head? = Option.some SLASH) :
      lastName (location.reverse ++ front) = lastName location.reverse := by
    have kept : ∀ back : OsStr, (back ++ front).takeWhile (· ≠ SLASH) = back.takeWhile (· ≠ SLASH) := by
      intro back
      induction back with
      | nil =>
        rcases ends with rfl | slash
        · rfl
        · obtain ⟨rest,rfl⟩ : ∃ rest, front = SLASH :: rest := by
            cases front with
            | nil => cases slash
            | cons first rest =>
              cases slash
              exact ⟨rest,rfl⟩
          simp
      | cons first back ih => simp only [List.cons_append,List.takeWhile_cons,ih]
    rw [lastName,trimBack_append front left undotted,kept,lastName]
  have through (front : OsStr) (ends : front = [] ∨ front.head? = Option.some SLASH) :
      fileName (front.reverse ++ location) = Option.some name := by
    refine fileName_eq_some.mpr ⟨?_,some,plain,inside⟩
    rw [List.reverse_append,List.reverse_reverse,behind front ends]
    exact is
  unfold join
  split_ifs with absolute ending
  · exact named
  · have whole := through base.reverse (by
      rcases ending with rfl | slash
      · exact .inl rfl
      · right
        rw [List.head?_reverse]
        exact slash)
    rwa [List.reverse_reverse] at whole
  · have whole := through (SLASH :: base.reverse) (.inr rfl)
    rwa [List.reverse_cons,List.reverse_reverse,List.append_assoc] at whole

/-! ## The components of a joined path -/

/-- The components of a path but for a slash or a dot in front. -/
def partsOf (path : OsStr) : List OsStr := (path.splitOn SLASH).filter fun part => part ≠ [] ∧ part ≠ [DOT]

/-- The slash or the dot in front. -/
def frontOf (path : OsStr) : List OsStr :=
  if path.head? = some SLASH then [[SLASH]]
  else if (path.splitOn SLASH).head? = some [DOT] then [[DOT]]
  else []

theorem components_eq (path : OsStr) : components path = frontOf path ++ partsOf path := rfl

/-- A part of a path: a name, or one that leads up. -/
structure IsPart (part : OsStr) : Prop where
  some : part ≠ []
  undotted : part ≠ [DOT]
  whole : SLASH ∉ part

theorem splitOn_whole {path part : OsStr} (inside : part ∈ path.splitOn SLASH) : SLASH ∉ part := by
  generalize parts_are : path.splitOn SLASH = parts at inside
  induction path generalizing parts part with
  | nil =>
    rw [List.splitOn_nil] at parts_are
    subst parts_are
    rw [List.mem_singleton.mp inside]
    exact List.not_mem_nil
  | cons byte path ih =>
    rw [List.splitOn_cons_eq_if_modifyHead] at parts_are
    split_ifs at parts_are with slash
    · subst parts_are
      rcases List.mem_cons.mp inside with rfl | later
      · exact List.not_mem_nil
      · exact ih _ rfl later
    · subst parts_are
      cases split : path.splitOn SLASH with
      | nil => exact absurd split (List.splitOn_ne_nil SLASH path)
      | cons first rest =>
        rw [split,List.modifyHead_cons] at inside
        rcases List.mem_cons.mp inside with rfl | later
        · rw [List.mem_cons]
          rintro (rfl | within)
          · exact slash (by simp)
          · exact ih _ split List.mem_cons_self within
        · exact ih _ split (List.mem_cons_of_mem _ later)

theorem isPart_of_mem {path part : OsStr} (inside : part ∈ partsOf path) : IsPart part := by
  obtain ⟨split,is⟩ := List.mem_filter.mp inside
  obtain ⟨some,undotted⟩ := of_decide_eq_true is
  exact ⟨some,undotted,splitOn_whole split⟩

/-- Parts put together with slashes are split again as they were. -/
theorem splitOn_parts {parts : List OsStr} (some : parts ≠ []) (whole : ∀ part ∈ parts, SLASH ∉ part) :
    ([SLASH].intercalate parts).splitOn SLASH = parts :=
  List.splitOn_intercalate SLASH whole some

theorem partsOf_intercalate {parts : List OsStr} (some : parts ≠ []) (all : ∀ part ∈ parts, IsPart part) :
    partsOf ([SLASH].intercalate parts) = parts := by
  rw [partsOf,splitOn_parts some fun part inside => (all part inside).whole]
  exact List.filter_eq_self.mpr fun part inside => decide_eq_true ⟨(all part inside).some,(all part inside).undotted⟩

theorem partsOf_slash (before behind : OsStr) : partsOf (before ++ SLASH :: behind) = partsOf before ++ partsOf behind := by
  rw [partsOf,List.splitOn_append_cons_self,List.filter_append]
  rfl

theorem frontOf_slash {before : OsStr} (some : before ≠ []) (behind : OsStr) :
    frontOf (before ++ SLASH :: behind) = frontOf before := by
  have heads : (before ++ SLASH :: behind).head? = before.head? := by
    cases before with
    | nil => exact absurd rfl some
    | cons byte before => rfl
  have parts : ((before ++ SLASH :: behind).splitOn SLASH).head? = (before.splitOn SLASH).head? := by
    rw [List.splitOn_append_cons_self]
    cases split : before.splitOn SLASH with
    | nil => exact absurd split (List.splitOn_ne_nil SLASH before)
    | cons first rest => rfl
  rw [frontOf,frontOf,heads,parts]

/-- The components of a location come behind those of its base. -/
theorem components_join {base location : OsStr} (based : base ≠ []) (inside : location.head? ≠ some SLASH) :
    components (join base location) = components base ++ partsOf location := by
  rw [join,if_neg inside]
  split_ifs with ending
  · have slashed : base.getLast? = some SLASH := ending.resolve_left based
    obtain ⟨before,rfl⟩ := List.getLast?_eq_some_iff.mp slashed
    rw [List.append_assoc,List.singleton_append,components_eq,components_eq,partsOf_slash,partsOf_slash]
    have front : frontOf (before ++ SLASH :: location) = frontOf (before ++ [SLASH]) := by
      cases before with
      | nil => rfl
      | cons byte before => rw [frontOf_slash (List.cons_ne_nil _ _),frontOf_slash (List.cons_ne_nil _ _)]
    have none_behind : partsOf [] = [] := rfl
    rw [front,none_behind,List.append_nil,List.append_assoc]
  · rw [components_eq,components_eq,partsOf_slash,frontOf_slash based,List.append_assoc]

/-- What is behind a base are parts, and as many of them as there are. -/
theorem stripPrefix_eq_some {base path : OsStr} {parts : List OsStr} (is : stripPrefix base path = some parts) :
    components path = components base ++ parts := by
  unfold stripPrefix at is
  split_ifs at is with behind
  cases is
  obtain ⟨rest,same⟩ := List.isPrefixOf_iff_prefix.mp behind
  rw [← same,List.drop_left]

theorem frontOf_cases (path : OsStr) : frontOf path = [] ∨ frontOf path = [[DOT]] ∨ frontOf path = [[SLASH]] := by
  unfold frontOf
  split_ifs <;> simp

/-- Behind the first component there are only parts. -/
theorem isPart_behind {path : OsStr} {front parts : List OsStr} (split : components path = front ++ parts)
    (some : front ≠ []) : ∀ part ∈ parts, IsPart part := by
  intro part inside
  refine isPart_of_mem (?_ : part ∈ partsOf path)
  obtain ⟨first,front,rfl⟩ := List.exists_cons_of_ne_nil some
  rw [components_eq] at split
  rcases frontOf_cases path with is | is | is
  · rw [is,List.nil_append] at split
    rw [split]
    exact List.mem_append_right _ inside
  all_goals
    rw [is,List.singleton_append,List.cons_append] at split
    rw [(List.cons.inj split).2]
    exact List.mem_append_right _ inside

/-- A path that is not absolute is its components put together. -/
theorem components_intercalate {path : OsStr} (some : components path ≠ [])
    (rootless : ([SLASH].intercalate (components path)).head? ≠ Option.some SLASH) :
    components ([SLASH].intercalate (components path)) = components path := by
  have plain : ∀ part ∈ partsOf path, IsPart part := fun part => isPart_of_mem
  have kept : (partsOf path).filter (fun part => part ≠ [] ∧ part ≠ [DOT]) = partsOf path :=
    List.filter_eq_self.mpr fun part inside => decide_eq_true ⟨(plain part inside).some,(plain part inside).undotted⟩
  rw [components_eq path] at some rootless ⊢
  rcases frontOf_cases path with is | is | is
  · rw [is,List.nil_append] at some rootless ⊢
    have split := splitOn_parts some fun part inside => (plain part inside).whole
    rw [components_eq,partsOf_intercalate some plain,frontOf,if_neg rootless,split,if_neg,List.nil_append]
    intro dotted
    exact (plain [DOT] (List.mem_of_mem_head? dotted)).undotted rfl
  · rw [is] at some rootless ⊢
    have split := splitOn_parts some fun part inside => by
      rcases List.mem_append.mp inside with front | behind
      · rw [List.mem_singleton.mp front]
        decide
      · exact (plain part behind).whole
    have behind : partsOf ([SLASH].intercalate ([[DOT]] ++ partsOf path)) = partsOf path := by
      show (List.splitOn SLASH _).filter _ = _
      rw [split,List.filter_append,kept]
      rfl
    rw [components_eq,behind,frontOf,if_neg rootless,split]
    rfl
  · rw [is] at rootless
    refine absurd ?_ rootless
    cases partsOf path <;> simp

/-- Only the empty path has no components. -/
theorem components_ne_nil {path : OsStr} (some : path ≠ []) : components path ≠ [] := by
  obtain ⟨byte,path,rfl⟩ := List.exists_cons_of_ne_nil some
  rw [components_eq]
  intro none
  obtain ⟨front,parts⟩ := List.append_eq_nil_iff.mp none
  unfold frontOf at front
  split_ifs at front with slash dot
  have whole : SLASH ≠ byte := fun same => slash (by rw [same]; rfl)
  cases split : (byte :: path).splitOn SLASH with
  | nil => exact List.splitOn_ne_nil SLASH _ split
  | cons first rest =>
    have first_some : first ≠ [] := by
      rw [List.splitOn_cons_eq_if_modifyHead,if_neg (by simpa using whole.symm)] at split
      rintro rfl
      cases tail : path.splitOn SLASH with
      | nil => exact List.splitOn_ne_nil SLASH _ tail
      | cons second others =>
        rw [tail] at split
        cases split
    rw [partsOf,split,List.filter_eq_nil_iff] at parts
    have dotted : first = [DOT] := by simpa [first_some] using parts first List.mem_cons_self
    rw [split,dotted] at dot
    exact dot rfl

/-! ## Names in a directory -/

theorem IsPart.rootless {name : OsStr} (is : IsPart name) : name.head? ≠ Option.some SLASH := fun slash =>
  is.whole (List.mem_of_mem_head? slash)

theorem partsOf_part {name : OsStr} (is : IsPart name) : partsOf name = [name] := by
  rw [partsOf,List.splitOn_eq_singleton is.whole]
  exact List.filter_eq_self.mpr fun part inside => by
    rw [List.mem_singleton.mp inside]
    exact decide_eq_true ⟨is.some,is.undotted⟩

/-- A name is the component behind its directory's. -/
theorem components_join_part (base : OsStr) {name : OsStr} (is : IsPart name) :
    components (join base name) = components base ++ [name] := by
  by_cases based : base = []
  · subst based
    have joined : join [] name = name := by
      rw [join,if_neg is.rootless,if_pos (.inl rfl)]
      rfl
    have front : frontOf name = [] := by
      rw [frontOf,if_neg is.rootless,List.splitOn_eq_singleton is.whole,if_neg]
      exact fun dotted => is.undotted (Option.some.inj dotted)
    rw [joined,components_eq,front,partsOf_part is]
    rfl
  · rw [components_join based is.rootless,partsOf_part is]

/-! ## A name in the place of another -/

section Names
variable {name : OsStr}

theorem trimBack_plain {back : OsStr} (plain : SLASH ∉ back) : trimBack back = back := by
  cases back with
  | nil => rfl
  | cons last rest =>
    rw [List.mem_cons,not_or] at plain
    obtain ⟨other,behind⟩ := plain
    rw [trimBack,if_neg (Ne.symm other),if_neg]
    rintro ⟨_,slash⟩
    exact behind (List.mem_of_mem_head? slash)

theorem trimBack_trimBack (back : OsStr) : trimBack (trimBack back) = trimBack back := by
  induction back with
  | nil => rfl
  | cons last rest ih =>
    rw [trimBack]
    by_cases slash : last = SLASH
    · rwa [if_pos slash]
    rw [if_neg slash]
    by_cases dotted : last = DOT ∧ rest.head? = some SLASH
    · rwa [if_pos dotted]
    · rw [if_neg dotted,trimBack,if_neg slash,if_neg dotted]

/-- No slash ends a path that is trimmed. -/
theorem trimBack_head (back : OsStr) : (trimBack back).head? ≠ some SLASH := by
  induction back with
  | nil => simp [trimBack]
  | cons last rest ih =>
    rw [trimBack]
    split_ifs with slash dotted
    · exact ih
    · exact ih
    · simpa using slash

theorem trimBack_slash (back : OsStr) : trimBack (SLASH :: back) = trimBack back := if_pos rfl

/-- A name that is not the way up. -/
structure IsName (name : OsStr) : Prop extends IsPart name where
  inside : name ≠ [DOT,DOT]

theorem trimBack_name (is : IsName name) (front : OsStr) : trimBack (name.reverse ++ front) = name.reverse ++ front := by
  have trimmed : trimBack name.reverse = name.reverse := trimBack_plain (by simpa using is.whole)
  rw [trimBack_append front,trimmed]
  · rw [trimmed]
    simpa using is.some
  · rw [trimmed]
    intro dotted
    exact is.undotted (by simpa using congrArg List.reverse dotted)

theorem takeWhile_name (is : IsName name) : name.reverse.takeWhile (· ≠ SLASH) = name.reverse := by
  rw [List.takeWhile_eq_self_iff]
  intro byte member
  exact decide_eq_true fun slash => is.whole (slash ▸ List.mem_reverse.mp member)

theorem dropWhile_name (is : IsName name) (front : OsStr) :
    (name.reverse ++ front).dropWhile (· ≠ SLASH) = front.dropWhile (· ≠ SLASH) := by
  rw [List.dropWhile_append_of_pos]
  intro byte member
  exact decide_eq_true fun slash => is.whole (slash ▸ List.mem_reverse.mp member)

theorem fileName_name (is : IsName name) : fileName name = some name := by
  rw [fileName_eq_some]
  refine ⟨?_,is.some,is.undotted,is.inside⟩
  have trimmed := trimBack_name is []
  rw [List.append_nil] at trimmed
  rw [lastName,trimmed,takeWhile_name is,List.reverse_reverse]

theorem fileName_withFileName (path : OsStr) (is : IsName name) : fileName (withFileName path name) = some name := by
  unfold withFileName
  split_ifs
  · exact fileName_join (fileName_name is) _
  · exact fileName_join (fileName_name is) _

/-- What is in front of a name is its parent, as far as it is trimmed. -/
theorem parent_behind (is : IsName name) (above : OsStr) : parent (above ++ name) =
    if (trimBack (above.reverse.dropWhile (· ≠ SLASH))).reverse = [] ∧ (above ++ name).head? = some SLASH then some [SLASH]
    else some (trimBack (above.reverse.dropWhile (· ≠ SLASH))).reverse := by
  have left : ¬ trimBack (above ++ name).reverse = [] := by
    rw [List.reverse_append,trimBack_name is]
    simp [is.some]
  unfold parent
  dsimp only
  rw [if_neg left,List.reverse_append,trimBack_name is,dropWhile_name is]

/-- Behind a directory that is trimmed a name has it for its parent. -/
theorem parent_join {directory : OsStr} (is : IsName name)
    (trimmed : directory = [SLASH] ∨ trimBack directory.reverse = directory.reverse) :
    parent (join directory name) = some directory := by
  rw [join,if_neg is.rootless]
  rcases trimmed with rfl | trimmed
  · rw [if_pos (.inr rfl),parent_behind is]
    exact if_pos ⟨rfl,rfl⟩
  · cases based : directory with
    | nil =>
      rw [if_pos (.inl rfl),parent_behind is]
      exact if_neg fun slash => is.rootless slash.2
    | cons first rest =>
      rw [← based]
      have some_directory : directory ≠ [] := by simp [based]
      have unslashed : ¬ (directory = [] ∨ directory.getLast? = some SLASH) := by
        rintro (none | slash)
        · exact some_directory none
        · rw [← List.head?_reverse,← trimmed] at slash
          exact trimBack_head _ slash
      have split : directory ++ SLASH :: name = (directory ++ [SLASH]) ++ name := by simp
      have ending : (directory ++ [SLASH]).reverse.dropWhile (· ≠ SLASH) = SLASH :: directory.reverse := by simp
      rw [if_neg unslashed,split,parent_behind is,ending,trimBack_slash,trimmed,List.reverse_reverse]
      exact if_neg fun empty => some_directory empty.1

theorem parent_trimmed {path directory : OsStr} (above : parent path = some directory) :
    directory = [SLASH] ∨ trimBack directory.reverse = directory.reverse := by
  unfold parent at above
  dsimp only at above
  split_ifs at above
  · exact .inl (Option.some.inj above).symm
  · right
    rw [← Option.some.inj above,List.reverse_reverse,trimBack_trimBack]

theorem parent_of_named {path : OsStr} (named : (fileName path).isSome = true) : ∃ directory, parent path = some directory := by
  have back_some : ¬ trimBack path.reverse = [] := by
    intro empty
    simp [fileName,empty] at named
  unfold parent
  dsimp only
  rw [if_neg back_some]
  split_ifs
  · exact ⟨_,rfl⟩
  · exact ⟨_,rfl⟩

/-- The name put in the place of another is in the same directory. -/
theorem parent_withFileName {path : OsStr} (is : IsName name) (named : (fileName path).isSome = true) :
    parent (withFileName path name) = parent path := by
  obtain ⟨directory,above⟩ := parent_of_named named
  rw [withFileName,if_pos named,above,Option.getD_some]
  exact parent_join is (parent_trimmed above)

end Names

/-! ## The order of paths -/

theorem rank_injective : Function.Injective rank := by
  have numbers : Function.Injective fun component : OsStr => component.map UInt8.toNat :=
    List.map_injective_iff.mpr fun a b => UInt8.toNat_inj.mp
  intro a b same
  unfold rank at same
  split_ifs at same with a_slash b_slash b_dot b_up a_dot b_slash b_dot b_up a_up b_slash b_dot b_up b_slash b_dot b_up
  all_goals first
    | exact numbers (List.cons.inj same).2
    | simp_all

theorem le_either (a b : OsStr) : le a b = true ∨ le b a = true := by
  rw [le,le,decide_eq_true_iff,decide_eq_true_iff]
  exact le_total _ _

theorem le_through {a b c : OsStr} (first : le a b = true) (second : le b c = true) : le a c = true := by
  rw [le,decide_eq_true_iff] at first second ⊢
  exact le_trans first second

/-- Paths in order both ways have the same components. -/
theorem components_eq_of_le {a b : OsStr} (below : le a b = true) (above : le b a = true) : components a = components b := by
  rw [le,decide_eq_true_iff] at below above
  exact List.map_injective_iff.mpr rank_injective (le_antisymm below above)

/-- Names in whatever order are put in the same one. -/
theorem sorted_eq (directory : OsStr) {names names' : List OsStr} (same : names.Perm names') (all : ∀ name ∈ names, IsPart name) :
    (names.map (join directory)).insertionSort (fun a b => le a b) =
      (names'.map (join directory)).insertionSort fun a b => le a b := by
  have : Std.Total fun a b : OsStr => le a b = true := ⟨le_either⟩
  have : IsTrans OsStr fun a b => le a b = true := ⟨fun _ _ _ => le_through⟩
  have perm : ((names.map (join directory)).insertionSort fun a b => le a b).Perm
      ((names'.map (join directory)).insertionSort fun a b => le a b) :=
    (List.perm_insertionSort _ _).trans ((same.map _).trans (List.perm_insertionSort _ _).symm)
  refine perm.eq_of_pairwise ?_ (List.pairwise_insertionSort _ _) (List.pairwise_insertionSort _ _)
  intro a b first second below above
  obtain ⟨name,inside,rfl⟩ := List.mem_map.mp ((List.mem_insertionSort _).mp first)
  obtain ⟨other,within,rfl⟩ := List.mem_map.mp ((List.mem_insertionSort _).mp second)
  have parts := components_eq_of_le below above
  rw [components_join_part directory (all name inside),components_join_part directory (all other (same.symm.subset within))] at parts
  rw [List.singleton_inj.mp (List.append_cancel_left parts)]

/-! ## Paths that are text -/

theorem textBytes_toStr {name : OsStr} {text : String} (is : toStr name = some text) : Gguf.textBytes text = name := by
  obtain ⟨letters,decoded,rfl⟩ := Option.map_eq_some_iff.mp is
  rw [Gguf.textBytes,String.toList_ofList]
  exact (Utf8.decode_eq_some.mp decoded).symm

theorem textBytes_mapM {parts : List OsStr} {texts : List String} (is : parts.mapM toStr = some texts) :
    texts.map Gguf.textBytes = parts := by
  induction parts generalizing texts with
  | nil =>
    cases is
    rfl
  | cons part parts ih =>
    rw [List.mapM_cons] at is
    obtain ⟨text,text_is,is⟩ := Option.bind_eq_some_iff.mp is
    obtain ⟨rest,rest_is,is⟩ := Option.bind_eq_some_iff.mp is
    cases is
    rw [List.map_cons,textBytes_toStr text_is,ih rest_is]

theorem encode_intercalate (parts : List (List Char)) :
    Utf8.encode (['/'].intercalate parts) = [SLASH].intercalate (parts.map Utf8.encode) := by
  induction parts with
  | nil => rfl
  | cons first parts ih =>
    cases parts with
    | nil => simp
    | cons second rest =>
      have slash : Utf8.encode ['/'] = [SLASH] := by decide
      rw [List.map_cons] at ih ⊢
      rw [List.intercalate_cons_cons,List.map_cons,List.intercalate_cons_cons,← ih,← slash]
      simp [Utf8.encode]

/-- A text of parts with slashes between them, as bytes. -/
theorem textBytes_intercalate (parts : List String) :
    Gguf.textBytes ("/".intercalate parts) = [SLASH].intercalate (parts.map Gguf.textBytes) := by
  have slash : "/".toList = ['/'] := by decide
  rw [Gguf.textBytes,String.toList_intercalate,slash,encode_intercalate,List.map_map]
  rfl

/-- A text whose bytes begin with a slash does. -/
theorem head_textBytes {location : String} (rootless : location.toList.head? ≠ some '/') :
    (Gguf.textBytes location).head? ≠ some SLASH := by
  intro slash
  obtain ⟨rest,is⟩ := List.head?_eq_some_iff.mp slash
  obtain ⟨c,after,letters,same,_⟩ := Utf8.encode_eq_cons (by decide) is
  rw [letters] at rootless
  exact rootless (congrArg some (Char.toNat_inj.mp same))

end Maestro.Path

namespace Maestro

/-! ## Directories in any order -/

/-- What a directory lists are names: not empty, without a slash, and no dot. -/
structure Disk.Listed (disk : Disk) : Prop where
  names : ∀ path names, disk.readDir path = some names → ∀ name ∈ names, Path.IsPart name

/-- The same but for the order in which a directory lists its names. -/
inductive Node.Reordered : Node → Node → Prop
  | Same (same : Node) : Reordered same same
  | Directory {names names' : List OsStr} :
      names.Perm names' → Reordered (.Directory (some names)) (.Directory (some names'))

structure Disk.Reordered (disk disk' : Disk) : Prop where
  nodes : ∀ path, Option.Rel Node.Reordered (disk.node path) (disk'.node path)

namespace Disk.Reordered
variable {disk disk' : Disk} (reordered : disk.Reordered disk')
include reordered

theorem isDir_eq (path : OsStr) : disk.isDir path = disk'.isDir path := by
  have nodes := reordered.nodes path
  unfold Disk.isDir
  generalize disk.node path = node,disk'.node path = node' at nodes
  cases nodes with
  | none => rfl
  | some same => cases same <;> rfl

theorem size_eq (path : OsStr) : disk.size path = disk'.size path := by
  have nodes := reordered.nodes path
  unfold Disk.size
  generalize disk.node path = node,disk'.node path = node' at nodes
  cases nodes with
  | none => rfl
  | some same => cases same <;> rfl

theorem read_eq (path : OsStr) : Gguf.Metadata.read disk path = Gguf.Metadata.read disk' path := by
  have nodes := reordered.nodes path
  unfold Gguf.Metadata.read
  generalize disk.node path = node,disk'.node path = node' at nodes
  cases nodes with
  | none => rfl
  | some same => cases same <;> rfl

theorem readDir_perm (path : OsStr) : Option.Rel List.Perm (disk.readDir path) (disk'.readDir path) := by
  have refl (names : Option (List OsStr)) : Option.Rel List.Perm names names := by
    cases names with
    | none => exact .none
    | some names => exact .some (.refl names)
  have nodes := reordered.nodes path
  unfold Disk.readDir
  generalize disk.node path = node,disk'.node path = node' at nodes
  cases nodes with
  | none => exact .none
  | some same =>
    cases same with
    | Directory perm => exact .some perm
    | Same => exact refl _

end Disk.Reordered
end Maestro
