import MirrorCpp.Spec.Sources
import MirrorCpp.Lib.Fallible

/-!
# The import closure

`specFromFiles` reads the files that are reachable from the root by imports, in the order of a
breadth-first search, and succeeds when all of them resolve (`Resolvable`). A file that is found
is not read twice, so the loop ends on every file system, cycles or not.
-/

namespace MirrorCpp.Spec

open Protocol Transport Worklist Fallible

section
variable (fs : FileSystem) (searchDirs : List String)

/-! ## What a file imports -/

/-- The modules a file imports, but for those of the library. -/
def imports (c : String) : List String :=
  (importNames ((fs.read c).getD [])).filter fun name => !isBuiltin name

/-- A file that module `name` may mean in the file `c`. -/
def Candidate (c name file : String) : Prop :=
  ∃ d ∈ candDirs searchDirs c, fs.canonical (joinPath d (name ++ ".tla")) = some file

def Imports (c file : String) : Prop := ∃ name ∈ imports fs c, Candidate fs searchDirs c name file

def Reaches : String → String → Prop := Relation.ReflTransGen (Imports fs searchDirs)

/-- The files `c` imports, in the order of the imports. -/
def importedFiles (c : String) : List String :=
  (imports fs c).flatMap (candidates fs (candDirs searchDirs c))

/-- Each module `c` imports is one file, which can be read. -/
def Settled (c : String) : Prop :=
  ∀ name ∈ imports fs c, ∃ file, (∀ f, Candidate fs searchDirs c name f ↔ f = file) ∧
    (fs.read file).isSome = true

/-- The root is a file that can be read, and so is, without ambiguity, every module that a
reachable file imports. -/
def Resolvable (root : String) : Prop :=
  ∃ r, fs.canonical root = some r ∧ (fs.read r).isSome = true ∧
    ∀ c, Reaches fs searchDirs r c → Settled fs searchDirs c

end

section
variable {fs : FileSystem} {searchDirs : List String}

theorem mem_candidates {c name file : String} :
    file ∈ candidates fs (candDirs searchDirs c) name ↔ Candidate fs searchDirs c name file := by
  simp [candidates, mem_insertAll, Candidate]

theorem mem_importedFiles {c file : String} :
    file ∈ importedFiles fs searchDirs c ↔ Imports fs searchDirs c file := by
  simp [importedFiles, Imports, mem_candidates]

theorem reaches_eq : Reaches fs searchDirs =
    Relation.ReflTransGen fun a b => b ∈ importedFiles fs searchDirs a := by
  unfold Reaches
  congr
  funext a b
  exact propext mem_importedFiles.symm

theorem candidates_singleton {c name file : String} :
    candidates fs (candDirs searchDirs c) name = [file] ↔
      ∀ f, Candidate fs searchDirs c name f ↔ f = file := by
  simp only [← mem_candidates]
  constructor
  · intro h f
    rw [h, List.mem_singleton]
  · intro h
    have hn : (candidates fs (candDirs searchDirs c) name).Nodup := nodup_insertAll List.nodup_nil
    generalize candidates fs (candDirs searchDirs c) name = fs at h hn
    match fs, h, hn with
    | [], h, _ => exact absurd ((h file).mpr rfl) List.not_mem_nil
    | [f], h, _ => rw [(h f).mp List.mem_cons_self]
    | f :: g :: fs, h, hn =>
      have hf := (h f).mp List.mem_cons_self
      have hg := (h g).mp (List.mem_cons_of_mem _ List.mem_cons_self)
      rw [List.nodup_cons, hf, hg] at hn
      exact absurd List.mem_cons_self hn.1

theorem canonical_of_candidate {c name file : String} (h : Candidate fs searchDirs c name file) :
    fs.canonical file = some file := by
  obtain ⟨d, -, hd⟩ := h
  exact fs.canonical_idem _ _ hd

theorem read_mem {c : String} (h : (fs.read c).isSome = true) : c ∈ fs.files.map Prod.fst := by
  unfold FileSystem.read at h
  cases hl : fs.files.lookup c with
  | none => rw [hl] at h; cases h
  | some o =>
    rw [List.lookup_eq_some_iff] at hl
    obtain ⟨l1, l2, he, -⟩ := hl
    rw [he]
    simp

/-! ## One file -/

/-- `sources` are the contents of `pending`, and these are the visited keys. -/
structure Matches (fs : FileSystem) (st : Closure) : Prop where
  visited : st.visited = st.pending
  sources : st.sources.map some = st.pending.map fs.read

theorem Matches.read {st : Closure} (h : Matches fs st) {c : String} (hc : c ∈ st.pending) :
    (fs.read c).isSome = true := by
  have hm : fs.read c ∈ st.sources.map some := h.sources ▸ List.mem_map_of_mem hc
  obtain ⟨src, -, he⟩ := List.mem_map.mp hm
  rw [← he]
  rfl

theorem pushFile_ok {file key : String} {st st' : Closure} (hm : Matches fs st)
    (hk : fs.canonical file = some key) (h : pushFile fs file st = .ok st') :
    (fs.read key).isSome = true ∧ Matches fs st' ∧ st'.pending = Worklist.insert st.pending key ∧
      st'.idx = st.idx := by
  simp only [pushFile, hk, hm.visited, List.contains_eq_mem, decide_eq_true_eq] at h
  split at h
  · rename_i hin
    cases h
    exact ⟨hm.read hin, hm, by rw [Worklist.insert, if_pos hin], rfl⟩
  · rename_i hout
    split at h
    · cases h
    · rename_i src hsrc
      cases h
      refine ⟨by rw [hsrc]; rfl, ⟨by simp, ?_⟩, by rw [Worklist.insert, if_neg hout], rfl⟩
      simp [hm.sources, hsrc]

theorem pushFile_total {file key : String} (st : Closure) (hk : fs.canonical file = some key)
    (hr : (fs.read key).isSome = true) : ∃ st', pushFile fs file st = .ok st' := by
  obtain ⟨src, hsrc⟩ := Option.isSome_iff_exists.mp hr
  simp only [pushFile, hk, hsrc]
  split
  · exact ⟨_, rfl⟩
  · exact ⟨_, rfl⟩

/-! ## The imports of one file -/

/-- The files a name stands for. -/
def named (fs : FileSystem) (searchDirs : List String) (c name : String) : List String :=
  if isBuiltin name then [] else candidates fs (candDirs searchDirs c) name

theorem importModule_ok {c name : String} {st st' : Closure} (hm : Matches fs st)
    (h : importModule fs searchDirs c st name = .ok st') :
    (isBuiltin name = false → ∃ file, (∀ f, Candidate fs searchDirs c name f ↔ f = file) ∧
      (fs.read file).isSome = true) ∧
    Matches fs st' ∧ st'.pending = insertAll st.pending (named fs searchDirs c name) ∧
      st'.idx = st.idx := by
  unfold importModule at h
  split at h
  · rename_i hb
    cases h
    exact ⟨fun hn => (Bool.false_ne_true (hn.symm.trans hb)).elim, hm, by simp [named, hb], rfl⟩
  · rename_i hb
    dsimp only at h
    split at h
    · cases h
    · rename_i file hfile
      have hone := candidates_singleton.mp hfile
      have hk := canonical_of_candidate ((hone file).mpr rfl)
      obtain ⟨hr, hm', hp, hi⟩ := pushFile_ok hm hk h
      refine ⟨fun _ => ⟨file, hone, hr⟩, hm', ?_, hi⟩
      simp [named, hb, hfile, hp]
    · cases h

theorem importModule_total {c name : String} (st : Closure)
    (h : isBuiltin name = false → ∃ file, (∀ f, Candidate fs searchDirs c name f ↔ f = file) ∧
      (fs.read file).isSome = true) :
    ∃ st', importModule fs searchDirs c st name = .ok st' := by
  unfold importModule
  split
  · exact ⟨st, rfl⟩
  · rename_i hb
    obtain ⟨file, hone, hr⟩ := h (Bool.eq_false_iff.mpr hb)
    dsimp only
    rw [candidates_singleton.mpr hone]
    exact pushFile_total st (canonical_of_candidate ((hone file).mpr rfl)) hr

theorem foldlM_ok {c : String} : ∀ {names : List String} {st st' : Closure}, Matches fs st →
    names.foldlM (importModule fs searchDirs c) st = .ok st' →
    (∀ name ∈ names, isBuiltin name = false →
      ∃ file, (∀ f, Candidate fs searchDirs c name f ↔ f = file) ∧
        (fs.read file).isSome = true) ∧
    Matches fs st' ∧
      st'.pending = insertAll st.pending (names.flatMap (named fs searchDirs c)) ∧
      st'.idx = st.idx
  | [], st, _, hm, h => by
    cases h
    exact ⟨by simp, hm, rfl, rfl⟩
  | name :: names, st, st', hm, h => by
    rw [List.foldlM_cons] at h
    obtain ⟨mid, h1, h2⟩ := bind_eq_ok.mp h
    obtain ⟨hs, hm1, hp1, hi1⟩ := importModule_ok hm h1
    obtain ⟨hs', hm2, hp2, hi2⟩ := foldlM_ok hm1 h2
    refine ⟨?_, hm2, ?_, hi2.trans hi1⟩
    · simp only [List.mem_cons, forall_eq_or_imp]
      exact ⟨hs, hs'⟩
    · rw [hp2, hp1, List.flatMap_cons, insertAll_append]

theorem foldlM_total {c : String} : ∀ {names : List String} (st : Closure),
    (∀ name ∈ names, isBuiltin name = false →
      ∃ file, (∀ f, Candidate fs searchDirs c name f ↔ f = file) ∧
        (fs.read file).isSome = true) →
    ∃ st', names.foldlM (importModule fs searchDirs c) st = .ok st'
  | [], st, _ => ⟨st, rfl⟩
  | name :: names, st, h => by
    simp only [List.mem_cons, forall_eq_or_imp] at h
    obtain ⟨mid, h1⟩ := importModule_total st h.1
    obtain ⟨st', h2⟩ := foldlM_total mid h.2
    exact ⟨st', by rw [List.foldlM_cons, h1, ok_bind, h2]⟩

/-- The names of a file stand for the files it imports. -/
theorem flatMap_named {c : String} {src : Bytes} (h : fs.read c = some src) :
    (importNames src).flatMap (named fs searchDirs c) = importedFiles fs searchDirs c := by
  unfold importedFiles imports
  rw [h, Option.getD_some]
  induction importNames src with
  | nil => rfl
  | cons name names ih =>
    rw [List.flatMap_cons, ih, List.filter_cons, named]
    cases isBuiltin name <;> simp

theorem settled_iff {c : String} {src : Bytes} (h : fs.read c = some src) :
    Settled fs searchDirs c ↔ ∀ name ∈ importNames src, isBuiltin name = false →
      ∃ file, (∀ f, Candidate fs searchDirs c name f ↔ f = file) ∧
        (fs.read file).isSome = true := by
  simp [Settled, imports, h]

/-! ## The loop -/

/-- What holds at the head of the loop, before the turn of `idx`. -/
structure Turn (fs : FileSystem) (searchDirs : List String) (r : String) (st : Closure) : Prop where
  sources : Matches fs st
  searched : Searched (importedFiles fs searchDirs) r st.pending st.idx
  settled : ∀ c ∈ st.pending.take st.idx, Settled fs searchDirs c

theorem Turn.length_le {r : String} {st : Closure} (h : Turn fs searchDirs r st) :
    st.pending.length ≤ fs.files.length := by
  have hsub : st.pending ⊆ fs.files.map Prod.fst := fun c hc => read_mem (h.sources.read hc)
  have := (List.subperm_of_subset h.searched.nodup hsub).length_le
  rwa [List.length_map] at this

/-- The file whose turn it is, with its content. -/
theorem Turn.current {r : String} {st : Closure} (h : Turn fs searchDirs r st) {c : String}
    (hc : st.pending[st.idx]? = some c) :
    ∃ src, st.sources[st.idx]? = some src ∧ fs.read c = some src := by
  have he := congrArg (·[st.idx]?) h.sources.sources
  simp only [List.getElem?_map, hc, Option.map_some] at he
  obtain ⟨src, hs, he⟩ := Option.map_eq_some_iff.mp he
  exact ⟨src, hs, he.symm⟩

/-- A turn that succeeds. -/
theorem Turn.next {r c : String} {src : Bytes} {st st' : Closure} (h : Turn fs searchDirs r st)
    (hc : st.pending[st.idx]? = some c) (hsrc : fs.read c = some src)
    (he : (importNames src).foldlM (importModule fs searchDirs c) { st with idx := st.idx + 1 } =
      .ok st') : Turn fs searchDirs r st' ∧ st'.idx = st.idx + 1 := by
  have hm : Matches fs { st with idx := st.idx + 1 } := ⟨h.sources.visited, h.sources.sources⟩
  obtain ⟨hs, hm', hp, hi⟩ := foldlM_ok hm he
  rw [flatMap_named hsrc] at hp
  have hnext := h.searched.next hc
  refine ⟨⟨hm', by rw [hp, hi]; exact hnext, fun d hd => ?_⟩, hi⟩
  obtain ⟨ys, hys⟩ := @prefix_insertAll _ _ (importedFiles fs searchDirs c) st.pending
  have hlt := (List.getElem?_eq_some_iff.mp hc).1
  rw [hp, hi, ← hys] at hd
  dsimp only at hd
  rw [List.take_append_of_le_length hlt, List.take_add_one, hc] at hd
  rcases List.mem_append.mp hd with hd | hd
  · exact h.settled d hd
  · rw [List.mem_singleton.mp hd]
    exact (settled_iff hsrc).mpr hs

/-- The loop ends, and what holds then; it succeeds if the files there are settle. -/
theorem resolve_spec {r : String} : ∀ {fuel : Nat} {st : Closure}, Turn fs searchDirs r st →
    fs.files.length < fuel + st.idx →
    ∃ res, resolve fs searchDirs fuel st = some res ∧
      (∀ st', res = .ok st' → Turn fs searchDirs r st' ∧ st'.pending[st'.idx]? = none) ∧
      ((∀ c, Reaches fs searchDirs r c → Settled fs searchDirs c) → ∃ st', res = .ok st')
  | 0, st, h, hf => by
    have h1 := h.searched.turn_le
    have h2 := h.length_le
    omega
  | fuel + 1, st, h, hf => by
    rw [resolve]
    cases hc : st.pending[st.idx]? with
    | none =>
      refine ⟨.ok st, by simp, ?_, fun _ => ⟨st, rfl⟩⟩
      rintro _ ⟨⟩
      exact ⟨h, hc⟩
    | some c =>
      obtain ⟨src, hs, hsrc⟩ := h.current hc
      rw [hs]
      dsimp only
      cases he : (importNames src).foldlM (importModule fs searchDirs c)
          { st with idx := st.idx + 1 } with
      | error e =>
        refine ⟨.error e, rfl, by rintro _ ⟨⟩, fun hall => ?_⟩
        have hreach : Reaches fs searchDirs r c := by
          rw [reaches_eq]
          exact h.searched.reached c (List.mem_of_getElem? hc)
        obtain ⟨st', hok⟩ := foldlM_total { st with idx := st.idx + 1 }
          ((settled_iff hsrc).mp (hall c hreach))
        rw [he] at hok
        cases hok
      | ok mid =>
        obtain ⟨hnext, hi⟩ := h.next hc hsrc he
        exact resolve_spec hnext (by omega)

/-- The closure of a root: the files that are reachable from it, in the order of a breadth-first
search, and their sources. -/
structure IsClosure (fs : FileSystem) (searchDirs : List String) (root : String)
    (sources : List Bytes) (r : String) (order : List String) : Prop where
  root : fs.canonical root = some r
  sources : sources.map some = order.map fs.read
  head : order.head? = some r
  nodup : order.Nodup
  reachable : ∀ c, c ∈ order ↔ Reaches fs searchDirs r c
  closed : ∀ c ∈ order, ∀ file, Imports fs searchDirs c file → file ∈ order
  breadthFirst : BreadthFirst (importedFiles fs searchDirs) r order

/-- The closure of a root is computed on every file system: there is a result, it is a list of
sources exactly where the root resolves, and then the sources are those of the closure. -/
theorem specFromFiles_closure (fs : FileSystem) (searchDirs : List String) (root : String) :
    (specFromFiles fs searchDirs root).isSome = true ∧
    ((∃ sources, specFromFiles fs searchDirs root = some (.ok sources)) ↔
      Resolvable fs searchDirs root) ∧
    ∀ sources, specFromFiles fs searchDirs root = some (.ok sources) →
      ∃ r order, IsClosure fs searchDirs root sources r order := by
  have hempty : Matches fs {} := ⟨rfl, rfl⟩
  unfold specFromFiles
  cases hpush : pushFile fs root {} with
  | error e =>
    refine ⟨rfl, iff_of_false (by rintro ⟨_, ⟨⟩⟩) ?_, by rintro _ ⟨⟩⟩
    rintro ⟨r, hr, hread, -⟩
    obtain ⟨st, hst⟩ := pushFile_total {} hr hread
    rw [hpush] at hst
    cases hst
  | ok st =>
    obtain ⟨r, hr⟩ : ∃ r, fs.canonical root = some r := by
      unfold pushFile at hpush
      split at hpush
      · cases hpush
      · rename_i key hkey
        exact ⟨key, hkey⟩
    obtain ⟨hread, hm, hp, hi⟩ := pushFile_ok hempty hr hpush
    have hturn : Turn fs searchDirs r st := by
      refine ⟨hm, ?_, ?_⟩
      · rw [hp, hi]
        exact Searched.start
      · rw [hi]
        simp
    obtain ⟨res, hres, hok, htotal⟩ := @resolve_spec _ _ _ (fs.files.length + 1) _ hturn (by omega)
    simp only [hres, Option.map_some]
    have hdone : ∀ st', res = .ok st' → IsClosure fs searchDirs root st'.sources r st'.pending ∧
        ∀ c ∈ st'.pending, Settled fs searchDirs c := by
      intro st' he
      obtain ⟨ht, hn⟩ := hok st' he
      have hs := ht.searched
      refine ⟨⟨hr, ht.sources.sources, ?_, hs.nodup, fun c => ?_, fun c hc file hf => ?_,
        hs.done hn⟩, ?_⟩
      · obtain ⟨ys, hys⟩ := @prefix_insertAll _ _
          (st'.pending.flatMap (importedFiles fs searchDirs)) [r]
        have hb := hs.done hn
        unfold BreadthFirst at hb
        rw [hb, ← hys]
        rfl
      · rw [reaches_eq]
        exact hs.mem_iff hn
      · exact hs.closed hn hc (mem_importedFiles.mpr hf)
      · have hall := ht.settled
        rwa [List.take_of_length_le (List.getElem?_eq_none_iff.mp hn)] at hall
    refine ⟨rfl, ⟨?_, ?_⟩, ?_⟩
    · rintro ⟨sources, he⟩
      obtain ⟨st', rfl, -⟩ := map_eq_ok.mp (Option.some.inj he)
      obtain ⟨hc, hs⟩ := hdone st' rfl
      exact ⟨r, hr, hread, fun c hreach => hs c ((hc.reachable c).mpr hreach)⟩
    · rintro ⟨r', hr', -, hall⟩
      rw [hr] at hr'
      cases hr'
      obtain ⟨st', rfl⟩ := htotal hall
      exact ⟨st'.sources, rfl⟩
    · intro sources he
      obtain ⟨st', rfl, rfl⟩ := map_eq_ok.mp (Option.some.inj he)
      exact ⟨r, st'.pending, (hdone st' rfl).1⟩

end

/-! ## Two modules that import each other -/

def cyclicFiles : List (String × Option Bytes) :=
  [("/m/A.tla", some "EXTENDS Naturals, B \\* EXTENDS C".toList),
    ("/m/B.tla", some "x == INSTANCE A (* INSTANCE C *) INSTANCE B".toList)]

def cyclic : FileSystem where
  files := cyclicFiles
  canonical p := if p ∈ cyclicFiles.map Prod.fst then some p else none
  canonical_mem p c h := by
    split at h
    · rename_i hp
      exact Option.some.inj h ▸ hp
    · cases h
  canonical_idem p c h := by
    split at h
    · rename_i hp
      rw [← Option.some.inj h, if_pos hp]
    · cases h

example : (specFromFiles cyclic ["/lib"] "/m/A.tla").map Except.toOption =
    some (some ["EXTENDS Naturals, B \\* EXTENDS C".toList,
      "x == INSTANCE A (* INSTANCE C *) INSTANCE B".toList]) := by
  decide +kernel

end MirrorCpp.Spec
