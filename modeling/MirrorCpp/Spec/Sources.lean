import MirrorCpp.Lib.Worklist
import MirrorCpp.Transport.Http

/-!
# The sources of a specification (`spec.cpp`)

`specFromFiles` reads a root module and the modules it imports, directly or not. The files are a
`FileSystem`: the canonical paths, their contents, and how a path resolves to one of them.
-/

namespace MirrorCpp.Spec

open Protocol Transport

/-! ## Imports of a module -/

def isBuiltin (name : String) : Bool :=
  ["Naturals", "Integers", "Reals", "Sequences", "FiniteSets", "TLC", "Bags", "Apalache"].contains
    name

def isNameStart (c : Char) : Bool :=
  ('a' ≤ c && c ≤ 'z') || ('A' ≤ c && c ≤ 'Z') || c == '_'

def isNameChar (c : Char) : Bool := isNameStart c || ('0' ≤ c && c ≤ '9')

/-- Behind the opening quote: the text behind the closing one. -/
def afterString : Bytes → Bytes
  | '\\' :: _ :: cs => afterString cs
  | '"' :: cs => cs
  | _ :: cs => afterString cs
  | [] => []

/-- Identifiers and commas outside strings and comments. Each turn of the loop consumes a
character; `depth` is that of the open block comments. -/
def tokensFrom : Nat → Nat → Bytes → List String
  | 0, _, _ => []
  | _ + 1, _, [] => []
  | fuel + 1, depth + 1, '(' :: '*' :: cs => tokensFrom fuel (depth + 2) cs
  | fuel + 1, depth + 1, '*' :: ')' :: cs => tokensFrom fuel depth cs
  | fuel + 1, depth + 1, _ :: cs => tokensFrom fuel (depth + 1) cs
  | fuel + 1, 0, '\\' :: '*' :: cs => tokensFrom fuel 0 (cs.dropWhile (· != '\n'))
  | fuel + 1, 0, '(' :: '*' :: cs => tokensFrom fuel 1 cs
  | fuel + 1, 0, '"' :: cs => tokensFrom fuel 0 (afterString cs)
  | fuel + 1, 0, ',' :: cs => "," :: tokensFrom fuel 0 cs
  | fuel + 1, 0, c :: cs =>
    if isNameStart c then
      String.ofList (c :: cs.takeWhile isNameChar) ::
        tokensFrom fuel 0 (cs.dropWhile isNameChar)
    else tokensFrom fuel 0 cs

def dependencyTokens (src : Bytes) : List String := tokensFrom src.length 0 src

/-- The names behind the first one of an `EXTENDS`, and what follows them. -/
def extendsTail : List String → List String × List String
  | sep :: name :: tokens =>
    if sep = "," ∧ name ≠ "," then
      let (names, rest) := extendsTail tokens
      (name :: names, rest)
    else ([], sep :: name :: tokens)
  | tokens => ([], tokens)

/-- One turn a token at least. -/
def importsFrom : Nat → List String → List String
  | 0, _ => []
  | _ + 1, [] => []
  | fuel + 1, token :: tokens =>
    if token = "EXTENDS" then
      match tokens with
      | [] => []
      | name :: rest =>
        if name = "," then importsFrom fuel tokens
        else
          let (names, rest) := extendsTail rest
          name :: (names ++ importsFrom fuel rest)
    else if token = "INSTANCE" then
      match tokens with
      | [] => []
      | name :: rest => name :: importsFrom fuel rest
    else importsFrom fuel tokens

def importNames (src : Bytes) : List String :=
  let tokens := dependencyTokens src
  importsFrom tokens.length tokens

theorem length_dropWhile_le (p : Char → Bool) (cs : Bytes) :
    (cs.dropWhile p).length ≤ cs.length := (List.dropWhile_suffix p).length_le

theorem length_afterString : ∀ cs : Bytes, (afterString cs).length ≤ cs.length := by
  intro cs
  fun_induction afterString cs <;> simp only [List.length_cons, List.length_nil] at * <;> omega

/-- The fuel of the tokens suffices: more of it changes nothing. -/
theorem tokensFrom_more {fuel depth : Nat} {src : Bytes} (h : src.length ≤ fuel) :
    tokensFrom (fuel + 1) depth src = tokensFrom fuel depth src := by
  have hline (cs : Bytes) := length_dropWhile_le (· != '\n') cs
  have hname (cs : Bytes) := length_dropWhile_le isNameChar cs
  fun_induction tokensFrom fuel depth src with
  | case1 =>
    rw [List.length_eq_zero_iff.mp (Nat.le_zero.mp h)]
    rfl
  | case2 => rfl
  | case3 fuel depth cs ih =>
    simp only [List.length_cons] at h
    rw [tokensFrom, ih (by omega)]
  | case4 fuel depth cs ih =>
    simp only [List.length_cons] at h
    rw [tokensFrom, ih (by omega)]
  | case5 fuel depth c cs h1 h2 ih =>
    simp only [List.length_cons] at h
    rw [tokensFrom, ih (by omega)]
    · exact h1
    · exact h2
  | case6 fuel cs ih =>
    simp only [List.length_cons] at h
    have := hline cs
    rw [tokensFrom, ih (by omega)]
  | case7 fuel cs ih =>
    simp only [List.length_cons] at h
    rw [tokensFrom, ih (by omega)]
  | case8 fuel cs ih =>
    simp only [List.length_cons] at h
    have := length_afterString cs
    rw [tokensFrom, ih (by omega)]
  | case9 fuel cs ih =>
    simp only [List.length_cons] at h
    rw [tokensFrom, ih (by omega)]
  | case10 fuel c cs h1 h2 h3 h4 hs ih =>
    simp only [List.length_cons] at h
    have := hname cs
    rw [tokensFrom, if_pos hs, ih (by omega)] <;> assumption
  | case11 fuel c cs h1 h2 h3 h4 hs ih =>
    simp only [List.length_cons] at h
    rw [tokensFrom, if_neg hs, ih (by omega)] <;> assumption

theorem length_extendsTail (tokens : List String) :
    (extendsTail tokens).2.length ≤ tokens.length := by
  fun_induction extendsTail tokens <;> simp_all
  omega

/-- One more name of a list. -/
def Continues (tokens : List String) : Prop :=
  ∃ name rest, tokens = "," :: name :: rest ∧ name ≠ ","

/-- The names that tokens import: those listed behind an `EXTENDS`, with commas between them, and
the one behind an `INSTANCE`. -/
inductive Imported : List String → List String → Prop where
  | nil : Imported [] []
  | extends_ {first : String} {more rest names : List String} (hfirst : first ≠ ",")
      (hmore : "," ∉ more) (hrest : ¬Continues rest) (h : Imported rest names) :
      Imported ("EXTENDS" :: first :: (more.flatMap (fun name => [",", name]) ++ rest))
        (first :: (more ++ names))
  | bare {tokens names : List String} (hbare : tokens.head?.getD "," = ",")
      (h : Imported tokens names) : Imported ("EXTENDS" :: tokens) names
  | instance_ {name : String} {rest names : List String} (h : Imported rest names) :
      Imported ("INSTANCE" :: name :: rest) (name :: names)
  | last : Imported ["INSTANCE"] []
  | other {token : String} {tokens names : List String} (hextends : token ≠ "EXTENDS")
      (hinstance : token ≠ "INSTANCE") (h : Imported tokens names) :
      Imported (token :: tokens) names

theorem extendsTail_list {more rest : List String} (hmore : "," ∉ more) (hrest : ¬Continues rest) :
    extendsTail (more.flatMap (fun name => [",", name]) ++ rest) = (more, rest) := by
  induction more with
  | nil =>
    rw [List.flatMap_nil, List.nil_append]
    fun_cases extendsTail rest with
    | case1 sep name tokens h => exact absurd ⟨name, tokens, by rw [h.1], h.2⟩ hrest
    | case2 => rfl
    | case3 => rfl
  | cons name more ih =>
    rw [List.mem_cons, not_or] at hmore
    show extendsTail ("," :: name :: (more.flatMap (fun name => [",", name]) ++ rest)) = _
    rw [extendsTail, if_pos ⟨rfl, Ne.symm hmore.1⟩, ih hmore.2]

/-- The tail of an `EXTENDS` is a list, and what follows does not continue it. -/
theorem extendsTail_spec (tokens : List String) :
    tokens = (extendsTail tokens).1.flatMap (fun name => [",", name]) ++ (extendsTail tokens).2 ∧
      "," ∉ (extendsTail tokens).1 ∧ ¬Continues (extendsTail tokens).2 := by
  fun_induction extendsTail tokens with
  | case1 sep name tokens h names rest he ih =>
    rw [he] at ih
    obtain ⟨htokens, hnames, hrest⟩ := ih
    refine ⟨?_, ?_, hrest⟩
    · rw [List.flatMap_cons, List.append_assoc, ← htokens, h.1]
      rfl
    · rw [List.mem_cons, not_or]
      exact ⟨Ne.symm h.2, hnames⟩
  | case2 sep name tokens h =>
    refine ⟨rfl, List.not_mem_nil, ?_⟩
    rintro ⟨_, _, ⟨⟩, hne⟩
    exact h ⟨rfl, hne⟩
  | case3 tokens h =>
    refine ⟨rfl, List.not_mem_nil, ?_⟩
    rintro ⟨name, rest, he, -⟩
    exact h _ _ _ he

theorem imported_importsFrom {fuel : Nat} {tokens : List String} (h : tokens.length ≤ fuel) :
    Imported tokens (importsFrom fuel tokens) := by
  fun_induction importsFrom fuel tokens with
  | case1 tokens =>
    rw [List.length_eq_zero_iff.mp (Nat.le_zero.mp h)]
    exact .nil
  | case2 => exact .nil
  | case3 => exact .bare rfl .nil
  | case4 fuel rest ih => exact .bare rfl (ih (Nat.le_of_succ_le_succ h))
  | case5 fuel name rest hn names rest' he ih =>
    have hlen := length_extendsTail rest
    obtain ⟨hrest, hnames, hends⟩ := extendsTail_spec rest
    rw [he] at hlen hrest hnames hends
    simp only [List.length_cons] at h
    dsimp only at hlen
    rw [hrest]
    exact .extends_ hn hnames hends (ih (by omega))
  | case6 => exact .last
  | case7 fuel name rest hne ih =>
    simp only [List.length_cons] at h
    exact .instance_ (ih (by omega))
  | case8 fuel token tokens h1 h2 ih => exact .other h1 h2 (ih (Nat.le_of_succ_le_succ h))

/-- Tokens import one list of names. -/
theorem Imported.eq {tokens names : List String} (h : Imported tokens names) :
    ∀ {fuel : Nat}, tokens.length ≤ fuel → importsFrom fuel tokens = names := by
  induction h with
  | nil => rintro (_ | fuel) - <;> rfl
  | @extends_ first more rest names hfirst hmore hrest _ ih =>
    rintro (_ | fuel) hlen
    · cases hlen
    · simp only [List.length_cons, List.length_append] at hlen
      rw [importsFrom, if_pos rfl]
      dsimp only
      rw [if_neg hfirst, extendsTail_list hmore hrest]
      dsimp only
      rw [ih (by omega)]
  | @bare tokens names hbare _ ih =>
    rintro (_ | fuel) hlen
    · cases hlen
    · have hn := ih (Nat.le_of_succ_le_succ hlen)
      cases tokens with
      | nil =>
        rw [← hn]
        cases fuel <;> rfl
      | cons token tokens =>
        obtain rfl : token = "," := hbare
        rw [importsFrom, if_pos rfl]
        dsimp only
        rw [if_pos rfl, hn]
  | instance_ _ ih =>
    rintro (_ | fuel) hlen
    · cases hlen
    · simp only [List.length_cons] at hlen
      rw [importsFrom, if_neg (by decide), if_pos rfl, ih (by omega)]
  | last =>
    rintro (_ | fuel) hlen
    · cases hlen
    · rfl
  | other hextends hinstance _ ih =>
    rintro (_ | fuel) hlen
    · cases hlen
    · rw [importsFrom.eq_def]
      dsimp only
      rw [if_neg hextends, if_neg hinstance, ih (Nat.le_of_succ_le_succ hlen)]

/-- `import_names` finds what the tokens import, and nothing else. -/
theorem importNames_iff {src : Bytes} {names : List String} :
    importNames src = names ↔ Imported (dependencyTokens src) names := by
  refine ⟨?_, fun h => h.eq (Nat.le_refl _)⟩
  rintro rfl
  exact imported_importsFrom (Nat.le_refl _)

/-! ## Files -/

/-- Regular files: the canonical paths with their contents (none where a file cannot be read),
and the file a path resolves to. A path exists when it resolves. -/
structure FileSystem where
  files : List (String × Option Bytes)
  canonical : String → Option String
  canonical_mem : ∀ p c, canonical p = some c → c ∈ files.map Prod.fst
  canonical_idem : ∀ p c, canonical p = some c → canonical c = some c

/-- `read_file`. -/
def FileSystem.read (fs : FileSystem) (path : String) : Option Bytes :=
  (fs.files.lookup path).join

/-- `directory / name`. -/
def joinPath (directory name : String) : String :=
  if directory.isEmpty || directory.toList.getLast? == some '/' then directory ++ name
  else directory ++ "/" ++ name

/-- What stands behind the last `/`. -/
def filename (path : String) : String :=
  String.ofList (path.toList.reverse.takeWhile (· != '/')).reverse

/-- `parent_path()`: without the file name and the slashes before it, but for those of the
root. -/
def parentPath (path : String) : String :=
  let directory := path.toList.reverse.dropWhile (· != '/')
  let stripped := directory.dropWhile (· == '/')
  String.ofList (if stripped.isEmpty then directory else stripped).reverse

def specSource (message : String) : Error := { kind := .specSource, message }

def commaSeparated : List String → String
  | [] => ""
  | [s] => s
  | s :: ss => s ++ ", " ++ commaSeparated ss

/-! ## `spec_from_files` -/

/-- `sources[i]` is the content of `pending[i]`; `visited` are the keys of `push_file`. -/
structure Closure where
  sources : List Bytes := []
  pending : List String := []
  visited : List String := []
  idx : Nat := 0

section
variable (fs : FileSystem) (searchDirs : List String)

def pushFile (file : String) (st : Closure) : Result Closure :=
  match fs.canonical file with
  | none => .error (specSource ("cannot resolve spec file '" ++ file ++ "'"))
  | some key =>
    if st.visited.contains key then .ok st
    else
      match fs.read key with
      | none => .error (specSource ("cannot read spec file '" ++ key ++ "'"))
      | some src => .ok { st with
          sources := st.sources ++ [src]
          pending := st.pending ++ [key]
          visited := st.visited ++ [key] }

/-- The importer's own directory, then the search directories. -/
def candDirs (importer : String) : List String :=
  (if (parentPath importer).isEmpty then "." else parentPath importer) :: searchDirs

/-- The files a module name may mean, each canonical path once. -/
def candidates (dirs : List String) (name : String) : List String :=
  Worklist.insertAll [] (dirs.filterMap fun d => fs.canonical (joinPath d (name ++ ".tla")))

def importModule (importer : String) (st : Closure) (name : String) : Result Closure :=
  if isBuiltin name then .ok st
  else
    let imported := "module '" ++ name ++ "' imported by '" ++ filename importer ++ "' "
    let dirs := candDirs searchDirs importer
    match candidates fs dirs name with
    | [] => .error (specSource (imported ++ "not found (searched: " ++ commaSeparated dirs ++ ")"))
    | [file] => pushFile fs file st
    | files => .error (specSource (imported ++ "is ambiguous; found in multiple directories: " ++
        commaSeparated files))

/-- The loop over the pending files; `none` when the fuel, a file a unit, runs out. -/
def resolve : Nat → Closure → Option (Result Closure)
  | 0, _ => none
  | fuel + 1, st =>
    match st.pending[st.idx]?, st.sources[st.idx]? with
    | some importer, some src =>
      match (importNames src).foldlM (importModule fs searchDirs importer)
          { st with idx := st.idx + 1 } with
      | .error e => some (.error e)
      | .ok st => resolve fuel st
    | _, _ => some (.ok st)

/-- The sources, root first; `none` only if the fuel, a unit for each file there is and one more,
runs out. -/
def specFromFiles (root : String) : Option (Result (List Bytes)) :=
  match pushFile fs root {} with
  | .error e => some (.error e)
  | .ok st => (resolve fs searchDirs (fs.files.length + 1) st).map fun r => Closure.sources <$> r

end

end MirrorCpp.Spec
