import MirrorCpp.Lib.Descriptors
import MirrorCpp.Protocol.Message

/-!
# Spawning a child (`detail/process.cpp`)

`spawn` makes two pipes, records six file actions and starts the program. What each call answers
is an input; the descriptor tables of the parent and of the child are the result. The Windows
branch is left out.
-/

namespace MirrorCpp.Transport

open Protocol Posix

variable {φ : Type}

/-- Which of the two branches is compiled. -/
inductive Platform where
  | linux
  | posix
  deriving DecidableEq, Repr

/-- What the calls of one `spawn` answer; a failing call is its `errno`. -/
structure Calls (φ : Type) where
  /-- The read and the write end. -/
  inPipe : Except Int (φ × φ)
  outPipe : Except Int (φ × φ)
  actionsInit : Except Int Unit
  /-- What `posix_spawn` returns, and the `errno` it leaves. -/
  rc : Int
  errno : Int
  pid : Int
  strerror : Int → String

structure Subprocess where
  pid : Int := -1
  stdinFd : Int := -1
  stdoutFd : Int := -1
  exitCode : Option Int := none
  deriving DecidableEq, Repr

/-- `if (fd >= 0) close(fd)`. -/
def closeHeld (fd : Int) (t : Table φ) : Table φ := if fd ≥ 0 then t.close fd else t

/-- The descriptors `reset` closes, the child killed and reaped. -/
def Subprocess.reset (self : Subprocess) (t : Table φ) : Subprocess × Table φ :=
  ({}, closeHeld self.stdoutFd (closeHeld self.stdinFd t))

/-- The arrays of the two pipes. -/
structure Pipes where
  inPipe : Int × Int
  outPipe : Int × Int
  deriving DecidableEq, Repr

/-- What the arrays are initialised with: `{}` on Linux, `{-1, -1}` elsewhere. -/
def Platform.unset : Platform → Pipes
  | .linux => ⟨(0, 0), (0, 0)⟩
  | .posix => ⟨(-1, -1), (-1, -1)⟩

/-- One pipe; only `pipe2` sets the close-on-exec flag. -/
def Platform.pipe (platform : Platform) (ends : φ × φ) (t : Table φ) : (Int × Int) × Table φ :=
  t.pipe ends (platform == .linux)

/-- The four ends, in the order of the loop that flags them. -/
def Pipes.fds (p : Pipes) : List Int := [p.inPipe.1, p.inPipe.2, p.outPipe.1, p.outPipe.2]

/-- The second pipe is only tried when the first is there. -/
def makePipes (platform : Platform) (calls : Calls φ) (t : Table φ) :
    Option Int × Pipes × Table φ :=
  match calls.inPipe with
  | .error e => (some e, platform.unset, t)
  | .ok ends =>
    let (inPipe, t) := platform.pipe ends t
    match calls.outPipe with
    | .error e => (some e, { platform.unset with inPipe }, t)
    | .ok ends =>
      let (outPipe, t) := platform.pipe ends t
      (none, ⟨inPipe, outPipe⟩, t)

/-- `if (fds[0] >= 0) { close(fds[0]); close(fds[1]); }`. -/
def closePair (fds : Int × Int) (t : Table φ) : Table φ :=
  if fds.1 ≥ 0 then (t.close fds.1).close fds.2 else t

def Pipes.closeAll (p : Pipes) (t : Table φ) : Table φ := p.fds.foldl Table.close t

/-- The flags that `pipe` leaves to `fcntl`. -/
def Platform.flag (platform : Platform) (p : Pipes) (t : Table φ) : Table φ :=
  match platform with
  | .linux => t
  | .posix => p.fds.foldl Table.setCloexec t

/-! ## File actions -/

inductive FileAction where
  | dup2 (fd : Int) (target : Nat)
  | close (fd : Int)
  deriving DecidableEq, Repr

def STDIN_FILENO : Nat := 0

def STDOUT_FILENO : Nat := 1

/-- Standard input is the stdin pipe, standard output the stdout pipe. -/
def Pipes.actions (p : Pipes) : List FileAction :=
  [.dup2 p.inPipe.1 STDIN_FILENO, .close p.inPipe.1,
    .dup2 p.outPipe.2 STDOUT_FILENO, .close p.outPipe.2,
    .close p.inPipe.2, .close p.outPipe.1]

/-- One action in the child. -/
def FileAction.run (t : Table φ) : FileAction → Option (Table φ)
  | .dup2 fd target => t.dup2 fd target
  | .close fd => some (t.close fd)

/-- The table the program starts with: the parent's, changed by the actions, less what an `exec`
closes. -/
def startTable (actions : List FileAction) (t : Table φ) : Option (Table φ) :=
  (actions.foldlM FileAction.run t).map Table.exec

/-! ## `Subprocess::spawn` -/

structure Spawned (φ : Type) where
  result : Result Unit
  self : Subprocess
  table : Table φ
  /-- The arrays of the pipes, as they are at the end. -/
  pipes : Pipes
  /-- The descriptors of the program, when it runs. -/
  child : Option (Table φ) := none

def spawnError (message : String) : Result Unit := .error { kind := .spawn, message }

def Subprocess.spawn (platform : Platform) (calls : Calls φ) (path : String) (self : Subprocess)
    (t : Table φ) : Spawned φ :=
  let (self, t) := self.reset t
  match makePipes platform calls t with
  | (some e, pipes, t) =>
    { result := spawnError ("pipe failed: " ++ calls.strerror e), self, pipes
      table := closePair pipes.outPipe (closePair pipes.inPipe t) }
  | (none, pipes, t) =>
    let t := platform.flag pipes t
    match calls.actionsInit with
    | .error e =>
      { result := spawnError ("posix_spawn_file_actions_init: " ++ calls.strerror e), self, pipes
        table := pipes.closeAll t }
    | .ok () =>
      if calls.rc ≠ 0 then
        { result := spawnError ("posix_spawn(" ++ path ++ "): " ++
            calls.strerror (if calls.rc ≠ -1 then calls.rc else calls.errno)), self, pipes
          table := pipes.closeAll t }
      else
        { result := .ok ()
          self := { pid := calls.pid, stdinFd := pipes.inPipe.2, stdoutFd := pipes.outPipe.1 }
          pipes
          table := (t.close pipes.inPipe.1).close pipes.outPipe.2
          child := startTable pipes.actions t }

/-! ## The pipes -/

/-- `p` was made in `t`, and `t'` is what came of it. -/
structure Made (t t' : Table φ) (p : Int × Int) (ends : φ × φ) (cloexec : Bool) : Prop where
  nonneg : 0 ≤ p.1
  lt : p.1 < p.2
  fst_free : t.entry p.1 = none
  snd_free : t.entry p.2 = none
  lowest : ∀ fd, 0 ≤ fd → fd < p.2 → fd ≠ p.1 → t.isOpen fd = true
  entry : ∀ fd, t'.entry fd =
    if fd = p.2 then some ⟨ends.2, cloexec⟩ else if fd = p.1 then some ⟨ends.1, cloexec⟩
    else t.entry fd

theorem made_pipe (platform : Platform) (ends : φ × φ) (t : Table φ) :
    Made t (platform.pipe ends t).2 (platform.pipe ends t).1 ends (platform == .linux) := by
  obtain ⟨a, b, hlt, hp, ha, hb, hlow, hentry⟩ := t.pipe_spec ends (platform == .linux)
  unfold Platform.pipe
  rw [hp]
  refine ⟨by simp, by simpa using hlt, ha, hb, fun fd h0 hfd hne => ?_, hentry⟩
  lift fd to Nat using h0
  exact hlow fd (by simpa using hfd) fun he => hne (by rw [he])

variable {platform : Platform} {calls : Calls φ} {t t' : Table φ} {p : Pipes}
  {ends inEnds outEnds : φ × φ} {cloexec : Bool}

/-- The second pipe lies above the first. -/
theorem Made.lt_of_made {t'' : Table φ} {p q : Int × Int} (h : Made t t' p inEnds cloexec)
    (h' : Made t' t'' q outEnds cloexec) : p.2 < q.1 := by
  have hq := h'.fst_free
  rw [h.entry] at hq
  by_contra hle
  have hp2 : q.1 ≠ p.2 := fun he => by simp [he] at hq
  have hp1 : q.1 ≠ p.1 := fun he => by
    rw [he] at hq
    split at hq <;> simp at hq
  have hopen := h.lowest q.1 h'.nonneg (by omega) hp1
  rw [if_neg hp2, if_neg hp1] at hq
  simp [Table.isOpen, hq] at hopen

/-- Closing both ends undoes the pipe. -/
theorem Made.closePair {p : Int × Int} (h : Made t t' p ends cloexec) (fd : Int) :
    (Transport.closePair p t').entry fd = t.entry fd := by
  have h0 : p.1 ≥ 0 := h.nonneg
  rw [Transport.closePair, if_pos h0, Table.entry_close, Table.entry_close, h.entry]
  split
  · next he => rw [he, h.snd_free]
  · split
    · next he => rw [he, h.fst_free]
    · rfl

theorem entry_foldl_close (fds : List Int) (t : Table φ) (fd : Int) :
    (fds.foldl Table.close t).entry fd = if fd ∈ fds then none else t.entry fd := by
  induction fds generalizing t with
  | nil => simp
  | cons x fds ih =>
    rw [List.foldl_cons, ih, Table.entry_close]
    grind

theorem entry_foldl_setCloexec (fds : List Int) (t : Table φ) (fd : Int) :
    (fds.foldl Table.setCloexec t).entry fd =
      if fd ∈ fds then (t.entry fd).map fun e => { e with cloexec := true } else t.entry fd := by
  induction fds generalizing t with
  | nil => simp
  | cons x fds ih =>
    rw [List.foldl_cons, ih, Table.entry_setCloexec]
    by_cases hx : fd = x
    · subst hx
      by_cases hmem : fd ∈ fds <;> simp [hmem, Function.comp_def]
    · simp [hx]

/-- The two pipes of a `spawn`, made in `t`. -/
structure BothMade (t : Table φ) (p : Pipes) (t' : Table φ) (inEnds outEnds : φ × φ) : Prop where
  nonneg : 0 ≤ p.inPipe.1
  lt_in : p.inPipe.1 < p.inPipe.2
  lt_between : p.inPipe.2 < p.outPipe.1
  lt_out : p.outPipe.1 < p.outPipe.2
  free : ∀ fd ∈ p.fds, t.entry fd = none
  lowest : ∀ fd, 0 ≤ fd → fd < p.inPipe.1 → t.isOpen fd = true
  inRead : t'.entry p.inPipe.1 = some ⟨inEnds.1, true⟩
  outWrite : t'.entry p.outPipe.2 = some ⟨outEnds.2, true⟩
  others : ∀ fd, fd ∉ p.fds → t'.entry fd = t.entry fd

theorem bothMade {t'' : Table φ} {p q : Int × Int}
    (h : Made t t' p inEnds (platform == .linux))
    (h' : Made t' t'' q outEnds (platform == .linux)) :
    BothMade t ⟨p, q⟩ (platform.flag ⟨p, q⟩ t'') inEnds outEnds := by
  have hlt := h.lt
  have hlt' := h'.lt
  have hbetween := h.lt_of_made h'
  have hentry : ∀ fd, t''.entry fd =
      if fd = q.2 then some ⟨outEnds.2, platform == .linux⟩
      else if fd = q.1 then some ⟨outEnds.1, platform == .linux⟩
      else if fd = p.2 then some ⟨inEnds.2, platform == .linux⟩
      else if fd = p.1 then some ⟨inEnds.1, platform == .linux⟩ else t.entry fd := fun fd => by
    rw [h'.entry, h.entry]
  refine {
    nonneg := h.nonneg
    lt_in := hlt
    lt_between := hbetween
    lt_out := hlt'
    free := ?_
    lowest := fun fd h0 (hfd : fd < p.1) => h.lowest fd h0 (by omega) (by omega)
    inRead := ?_
    outWrite := ?_
    others := ?_ }
  · have hq1 := h'.fst_free
    have hq2 := h'.snd_free
    rw [h.entry, if_neg (by omega), if_neg (by omega)] at hq1 hq2
    simp [Pipes.fds, h.fst_free, h.snd_free, hq1, hq2]
  · cases platform with
    | linux =>
      rw [Platform.flag, hentry, if_neg (by simp; omega), if_neg (by simp; omega),
        if_neg (by simp; omega), if_pos rfl]
      rfl
    | posix =>
      rw [Platform.flag, entry_foldl_setCloexec, if_pos (by simp [Pipes.fds]), hentry,
        if_neg (by simp; omega), if_neg (by simp; omega), if_neg (by simp; omega), if_pos rfl]
      rfl
  · cases platform with
    | linux =>
      rw [Platform.flag, hentry, if_pos rfl]
      rfl
    | posix =>
      rw [Platform.flag, entry_foldl_setCloexec, if_pos (by simp [Pipes.fds]), hentry, if_pos rfl]
      rfl
  · intro fd hfd
    have hne : fd ≠ q.2 ∧ fd ≠ q.1 ∧ fd ≠ p.2 ∧ fd ≠ p.1 := by
      simp [Pipes.fds] at hfd
      omega
    have he : t''.entry fd = t.entry fd := by
      rw [hentry, if_neg hne.1, if_neg hne.2.1, if_neg hne.2.2.1, if_neg hne.2.2.2]
    cases platform with
    | linux => exact he
    | posix => rw [Platform.flag, entry_foldl_setCloexec, if_neg hfd, he]

theorem BothMade.closeAll (h : BothMade t p t' inEnds outEnds) (fd : Int) :
    (p.closeAll t').entry fd = t.entry fd := by
  rw [Pipes.closeAll, entry_foldl_close]
  split
  · next hfd => rw [h.free fd hfd]
  · next hfd => exact h.others fd hfd

/-- How a `spawn` ends, `t` being the table the pipes are created in. -/
inductive Ends (platform : Platform) (calls : Calls φ) (t : Table φ) : Spawned φ → Prop
  | noInPipe {e : Int} {message : String} {self : Subprocess} (hin : calls.inPipe = .error e) :
    Ends platform calls t {
      result := spawnError message, self, pipes := platform.unset
      table := closePair platform.unset.outPipe (closePair platform.unset.inPipe t) }
  | noOutPipe {ends : φ × φ} {e : Int} {p : Int × Int} {t' : Table φ} {message : String}
    {self : Subprocess} (hin : calls.inPipe = .ok ends) (hout : calls.outPipe = .error e)
    (hmade : Made t t' p ends (platform == .linux)) :
    Ends platform calls t {
      result := spawnError message, self, pipes := { platform.unset with inPipe := p }
      table := closePair platform.unset.outPipe (closePair p t') }
  | failed {inEnds outEnds : φ × φ} {p : Pipes} {t' : Table φ} {message : String}
    {self : Subprocess} (hin : calls.inPipe = .ok inEnds) (hout : calls.outPipe = .ok outEnds)
    (hmade : BothMade t p t' inEnds outEnds) :
    Ends platform calls t { result := spawnError message, self, pipes := p, table := p.closeAll t' }
  | started {inEnds outEnds : φ × φ} {p : Pipes} {t' : Table φ} (hin : calls.inPipe = .ok inEnds)
    (hout : calls.outPipe = .ok outEnds) (hmade : BothMade t p t' inEnds outEnds) :
    Ends platform calls t {
      result := .ok ()
      self := { pid := calls.pid, stdinFd := p.inPipe.2, stdoutFd := p.outPipe.1 }
      pipes := p
      table := (t'.close p.inPipe.1).close p.outPipe.2
      child := startTable p.actions t' }

theorem spawn_ends (platform : Platform) (calls : Calls φ) (path : String) (self : Subprocess)
    (t : Table φ) :
    Ends platform calls (self.reset t).2 (self.spawn platform calls path t) := by
  unfold Subprocess.spawn
  generalize self.reset t = start
  obtain ⟨self, t⟩ := start
  unfold makePipes
  cases hin : calls.inPipe with
  | error e => exact .noInPipe hin
  | ok inEnds =>
    have hmade := made_pipe platform inEnds t
    cases hout : calls.outPipe with
    | error e => exact .noOutPipe hin hout hmade
    | ok outEnds =>
      have hboth := bothMade hmade (made_pipe platform outEnds _)
      simp only
      split
      · exact .failed hin hout hboth
      · split
        · exact .failed hin hout hboth
        · exact .started hin hout hboth

/-! ## A failing `spawn` -/

/-- One of the two pipe calls fails. -/
def Calls.pipeFails (calls : Calls φ) : Bool := !calls.inPipe.isOk || !calls.outPipe.isOk

theorem pipeFails_iff : calls.pipeFails = true ↔
    (∃ e, calls.inPipe = .error e) ∨ ∃ e, calls.outPipe = .error e := by
  unfold Calls.pipeFails
  cases calls.inPipe <;> cases calls.outPipe <;> simp [Except.isOk, Except.toBool]

/-- Closing what a failing call left unset: descriptor 0 on Linux, nothing elsewhere. -/
theorem entry_closePair_unset (platform : Platform) (t : Table φ) (fd : Int) :
    (closePair platform.unset.outPipe t).entry fd =
      if platform = .linux ∧ fd = 0 then none else t.entry fd := by
  cases platform with
  | linux =>
    simp only [Platform.unset, closePair, ge_iff_le, Int.le_refl, if_true, Table.entry_close,
      true_and]
    split <;> rfl
  | posix => rfl

/-- The table after an error: the one the pipes were created in, with descriptor 0 closed when a
pipe call fails on Linux. -/
theorem Ends.entry {s : Spawned φ} {e : Error} (h : Ends platform calls t s)
    (he : s.result = .error e) (fd : Int) : s.table.entry fd =
      if platform = .linux ∧ calls.pipeFails = true ∧ fd = 0 then none else t.entry fd := by
  cases h with
  | noInPipe hin =>
    have hfails := pipeFails_iff.mpr (.inl ⟨_, hin⟩)
    have hsame : platform.unset.inPipe = platform.unset.outPipe := by cases platform <;> rfl
    simp only [hsame, entry_closePair_unset, hfails, true_and]
    split <;> rfl
  | noOutPipe hin hout hmade =>
    have hfails := pipeFails_iff.mpr (.inr ⟨_, hout⟩)
    simp only [entry_closePair_unset, hmade.closePair, hfails, true_and]
  | failed hin hout hmade =>
    have hfails : calls.pipeFails = false := by
      simp [Calls.pipeFails, hin, hout, Except.isOk, Except.toBool]
    simp only [hmade.closeAll, hfails, Bool.false_eq_true, false_and, and_false, if_false]
  | started => cases he

theorem Ends.error_of_pipe {s : Spawned φ} (h : Ends platform calls t s)
    (hfails : calls.pipeFails = true) : ∃ e, s.result = .error e := by
  cases h with
  | noInPipe | noOutPipe | failed => exact ⟨_, rfl⟩
  | started hin hout => simp [Calls.pipeFails, hin, hout, Except.isOk, Except.toBool] at hfails

/-- A failing `spawn` leaves the open descriptors as they were, but for descriptor 0 when it was
open and a pipe call fails on Linux. -/
theorem spawn_error_restores_iff (platform : Platform) (calls : Calls φ) (path : String)
    (self : Subprocess) (t : Table φ) :
    ((∃ e, (self.spawn platform calls path t).result = .error e) →
      ∀ fd, (self.spawn platform calls path t).table.isOpen fd = (self.reset t).2.isOpen fd) ↔
    (platform = .linux → (∃ e, calls.inPipe = .error e) ∨ (∃ e, calls.outPipe = .error e) →
      (self.reset t).2.isOpen 0 = false) := by
  have hends := spawn_ends platform calls path self t
  rw [← pipeFails_iff]
  constructor
  · intro h hlinux hfails
    obtain ⟨e, he⟩ := hends.error_of_pipe hfails
    have h0 := h ⟨e, he⟩ 0
    rw [Table.isOpen, hends.entry he 0, if_pos ⟨hlinux, hfails, rfl⟩] at h0
    exact h0.symm
  · rintro h ⟨e, he⟩ fd
    rw [Table.isOpen, hends.entry he fd]
    split
    · next hzero =>
      obtain ⟨hlinux, hfails, rfl⟩ := hzero
      rw [h hlinux hfails]
      rfl
    · rfl

/-- A process with its standard streams. -/
def standardStreams : Table String :=
  ((Table.empty.install 0 ⟨"stdin", false⟩).install 1 ⟨"stdout", false⟩).install 2 ⟨"stderr", false⟩

/-- The first pipe fails with `EMFILE`. -/
def outOfDescriptors : Calls String where
  inPipe := .error 24
  outPipe := .error 24
  actionsInit := .ok ()
  rc := 0
  errno := 0
  pid := 0
  strerror _ := "Too many open files"

/-- The server of a process that holds the descriptors `t`. -/
def spawnServer (calls : Calls String) (t : Table String) : Spawned String :=
  Subprocess.spawn .linux calls "/bin/server" {} t

/-- On Linux a failing first pipe closes the standard input of the parent. -/
theorem spawn_closes_stdin :
    (∃ e, (spawnServer outOfDescriptors standardStreams).result = .error e) ∧
    ¬∀ fd, (spawnServer outOfDescriptors standardStreams).table.isOpen fd =
      ((Subprocess.reset {} standardStreams).2).isOpen fd :=
  ⟨⟨_, rfl⟩, fun h => absurd (h 0) (by decide)⟩

/-! ## The program's descriptors -/

/-- The program reads the stdin pipe and writes the stdout pipe, and holds no other end. -/
structure Wired (child : Table φ) (p : Pipes) (inRead outWrite : φ) : Prop where
  stdin : child.entry 0 = some ⟨inRead, false⟩
  stdout : child.entry 1 = some ⟨outWrite, false⟩
  closed : ∀ fd ∈ p.fds, fd ≠ 0 → fd ≠ 1 → child.entry fd = none

/-- What the six actions leave; the last to name a descriptor decides. -/
theorem run_actions (h : BothMade t p t' inEnds outEnds) :
    ∃ c, p.actions.foldlM FileAction.run t' = some c ∧ ∀ fd, c.entry fd =
      if fd = p.outPipe.1 ∨ fd = p.inPipe.2 ∨ fd = p.outPipe.2 then none
      else if fd = 1 then some ⟨outEnds.2, false⟩
      else if fd = p.inPipe.1 then none
      else if fd = 0 then some ⟨inEnds.1, false⟩
      else t'.entry fd := by
  have hnonneg := h.nonneg
  have hin := h.lt_in
  have hbetween := h.lt_between
  have hout := h.lt_out
  obtain ⟨t₁, ht₁⟩ : ∃ t₁, t₁ = (t'.install 0 ⟨inEnds.1, false⟩).close p.inPipe.1 := ⟨_, rfl⟩
  have hfirst : t'.dup2 p.inPipe.1 0 = some (t'.install 0 ⟨inEnds.1, false⟩) := by
    rw [Table.dup2, h.inRead]
    rfl
  have hwrite : t₁.entry p.outPipe.2 = some ⟨outEnds.2, true⟩ := by
    rw [ht₁, Table.entry_close, Table.entry_install, if_neg (by omega), if_neg (by omega),
      h.outWrite]
  have hsecond : t₁.dup2 p.outPipe.2 1 = some (t₁.install 1 ⟨outEnds.2, false⟩) := by
    rw [Table.dup2, hwrite]
    rfl
  refine ⟨(((t₁.install 1 ⟨outEnds.2, false⟩).close p.outPipe.2).close p.inPipe.2).close
    p.outPipe.1, ?_, fun fd => ?_⟩
  · simp only [Pipes.actions, STDIN_FILENO, STDOUT_FILENO, List.foldlM_cons, List.foldlM_nil,
      FileAction.run, hfirst, Option.bind_eq_bind, Option.bind_some, ← ht₁, hsecond]
    rfl
  · simp only [ht₁, Table.entry_close, Table.entry_install]
    grind

/-- The stdin pipe is read from descriptor 0 exactly when 0 was free. -/
theorem BothMade.isOpen_zero (h : BothMade t p t' inEnds outEnds) :
    t.isOpen 0 = true ↔ p.inPipe.1 ≠ 0 := by
  constructor
  · intro hopen hzero
    have hfree := h.free p.inPipe.1 (by simp [Pipes.fds])
    rw [hzero] at hfree
    simp [Table.isOpen, hfree] at hopen
  · intro hne
    have hnonneg := h.nonneg
    exact h.lowest 0 (Int.le_refl 0) (by omega)

theorem wired_iff (h : BothMade t p t' inEnds outEnds) :
    (∃ child, startTable p.actions t' = some child ∧ Wired child p inEnds.1 outEnds.2) ↔
      t.isOpen 0 = true := by
  have hnonneg := h.nonneg
  have hin := h.lt_in
  have hbetween := h.lt_between
  have hout := h.lt_out
  obtain ⟨c, hc, hentry⟩ := run_actions h
  rw [h.isOpen_zero, startTable, hc]
  simp only [Option.map_some, Option.some.injEq, exists_eq_left']
  constructor
  · -- a pipe end that is descriptor 0 is closed again by the second action
    intro hwired hzero
    have hstdin := hwired.stdin
    rw [Table.entry_exec, hentry, if_neg (by omega), if_neg (by omega), if_pos hzero.symm] at hstdin
    cases hstdin
  · intro hne
    refine ⟨?_, ?_, fun fd hfd h0 h1 => ?_⟩
    · rw [Table.entry_exec, hentry, if_neg (by omega), if_neg (by omega), if_neg (by omega),
        if_pos rfl]
      rfl
    · rw [Table.entry_exec, hentry, if_neg (by omega), if_pos rfl]
      rfl
    · have hnone : c.entry fd = none := by
        rw [hentry]
        simp only [Pipes.fds, List.mem_cons, List.not_mem_nil, or_false] at hfd
        grind
      rw [Table.entry_exec, hnone]
      rfl

/-- A `spawn` that succeeds wires the program exactly when descriptor 0 was open before. -/
theorem spawn_wires_iff (platform : Platform) (calls : Calls φ) (path : String)
    (self : Subprocess) (t : Table φ) (inEnds outEnds : φ × φ) (hin : calls.inPipe = .ok inEnds)
    (hout : calls.outPipe = .ok outEnds)
    (hok : (self.spawn platform calls path t).result = .ok ()) :
    (∃ child, (self.spawn platform calls path t).child = some child ∧
      Wired child (self.spawn platform calls path t).pipes inEnds.1 outEnds.2) ↔
      (self.reset t).2.isOpen 0 = true := by
  have hends := spawn_ends platform calls path self t
  generalize self.spawn platform calls path t = s at hok hends ⊢
  cases hends with
  | noInPipe | noOutPipe | failed => cases hok
  | started hin' hout' hmade =>
    rw [hin] at hin'
    rw [hout] at hout'
    cases hin'
    cases hout'
    exact wired_iff hmade

/-- A successful `spawn` keeps the other two ends, and the next `reset` gives them back. -/
theorem reset_after_spawn (platform : Platform) (calls : Calls φ) (path : String)
    (self : Subprocess) (t : Table φ)
    (hok : (self.spawn platform calls path t).result = .ok ()) (fd : Int) :
    ((self.spawn platform calls path t).self.reset
      (self.spawn platform calls path t).table).2.entry fd = (self.reset t).2.entry fd := by
  have hends := spawn_ends platform calls path self t
  generalize self.spawn platform calls path t = s at hok hends ⊢
  cases hends with
  | noInPipe | noOutPipe | failed => cases hok
  | @started _ _ p t' hin hout hmade =>
    have hnonneg := hmade.nonneg
    have hlt_in := hmade.lt_in
    have hbetween := hmade.lt_between
    have hstdin : p.inPipe.2 ≥ 0 := by omega
    have hstdout : p.outPipe.1 ≥ 0 := by omega
    rw [← hmade.closeAll fd]
    simp only [Subprocess.reset, closeHeld, if_pos hstdin, if_pos hstdout, Pipes.closeAll,
      Pipes.fds, List.foldl_cons, List.foldl_nil, Table.entry_close]
    grind

/-- Every call succeeds. -/
def allSucceed : Calls String where
  inPipe := .ok ("stdin read", "stdin write")
  outPipe := .ok ("stdout read", "stdout write")
  actionsInit := .ok ()
  rc := 0
  errno := 0
  pid := 1234
  strerror _ := "Success"

theorem spawn_wires_iff_standard :
    ∃ child, (spawnServer allSucceed standardStreams).child = some child ∧
      Wired child (spawnServer allSucceed standardStreams).pipes "stdin read" "stdout write" :=
  (spawn_wires_iff .linux allSucceed "/bin/server" {} standardStreams ("stdin read", "stdin write")
    ("stdout read", "stdout write") rfl rfl rfl).mpr rfl

/-- A process started without its standard input. -/
def withoutStdin : Table String :=
  (Table.empty.install 1 ⟨"stdout", false⟩).install 2 ⟨"stderr", false⟩

/-- The read end takes the free number 0, and the close of that end leaves the program without
standard input. -/
theorem spawn_drops_stdin :
    (spawnServer allSucceed withoutStdin).result = .ok () ∧
    (spawnServer allSucceed withoutStdin).pipes.inPipe.1 = 0 ∧
    ¬∃ child, (spawnServer allSucceed withoutStdin).child = some child ∧
      Wired child (spawnServer allSucceed withoutStdin).pipes "stdin read" "stdout write" := by
  refine ⟨rfl, by decide, ?_⟩
  rintro ⟨child, hchild, hwired⟩
  have hclosed : ∀ c, (spawnServer allSucceed withoutStdin).child = some c → c.entry 0 = none := by
    rintro c ⟨⟩
    rfl
  have hstdin := hwired.stdin
  rw [hclosed child hchild] at hstdin
  cases hstdin

end MirrorCpp.Transport
