import Mathlib.Logic.Function.Basic
import Lizlib.Transition

/-!
# Files and descriptors

A `File` is a descriptor and some flags.  It is made by `Open`, `Socket::Create`, `accept4` and the
like with a descriptor of its own, or by `From` with any number; it is moved from, assigned to by
`Socket::operator=`, closed, and closes itself when it is destroyed.  Other code opens and closes
descriptors too: `~Job` closes the one of its timer channel.

The kernel's table says which open file each descriptor refers to; open files are numbered, and a
descriptor that has been closed is handed out again.  `close` on an open descriptor gives it back
even where it reports an error.

`given`, `taken` and `closes` are observations; no step of the code reads them.
-/

namespace Lizlib

/-- `File`, and `Socket`, which adds no member. -/
structure File where
  fd_ : Int
  flags_ : Int
  deriving DecidableEq

namespace File

def INVALID_FD : Int := -1

/-- `Valid` -/
def Valid (f : File) : Prop := f.fd_ ≠ INVALID_FD

instance (f : File) : Decidable f.Valid := inferInstanceAs (Decidable (_ ≠ _))

/-- The descriptor of a valid file. -/
def descriptor (f : File) : Option Int := if f.Valid then some f.fd_ else none

/-- What the move constructor leaves of its argument. -/
def moved : File := ⟨INVALID_FD, 0⟩

end File

/-- What `Close` returns. -/
inductive CloseStatus where
  /-- `Status::Success` -/
  | success
  /-- The status of the `errno` of `::close`. -/
  | error
  /-- `Status::Invalid` -/
  | invalid
  deriving DecidableEq

/-- The `File`s of a process, in objects `O`, and its descriptors. -/
structure Files (O : Type*) where
  /-- The objects that are alive. -/
  file : O → Option File
  /-- The open file each descriptor refers to. -/
  table : Int → Option Nat
  /-- The open files so far. -/
  opened : Nat
  /-- The open file each object has been given. -/
  given : O → Option Nat
  /-- The open files that have been given to objects. -/
  taken : List Nat
  /-- For each `::close` of an object, the file it had been given and the one that was closed. -/
  closes : List (Option Nat × Option Nat)

/-- Who does what. -/
inductive FileLabel (O : Type*) where
  /-- `o` is constructed with the result of `open`, `socket`, `accept4`, `timerfd_create`, …. -/
  | open (o : O) (fd flags : Int)
  /-- `o` is constructed with `From(fd)`. -/
  | from (o : O) (fd : Int)
  /-- `o` is constructed by moving from `p`. -/
  | move (o p : O)
  /-- `o = std::move(p)` on `Socket`s -/
  | assign (o p : O)
  /-- `o.Close()`; the kernel reports an error unless `ok`. -/
  | close (o : O) (ok : Bool)
  /-- `~File` -/
  | destroy (o : O) (ok : Bool)
  /-- Other code opens a descriptor. -/
  | foreignOpen (fd : Int)
  /-- Other code calls `::close(fd)`. -/
  | foreignClose (fd : Int)

namespace Files

open Function (update)

variable {O : Type*} [DecidableEq O]

/-- Before any file is opened. -/
def start : Files O := ⟨fun _ => none, fun _ => none, 0, fun _ => none, [], []⟩

omit [DecidableEq O] in
/-- The descriptor an object has. -/
def descriptor (s : Files O) (o : O) : Option Int := (s.file o).bind File.descriptor

omit [DecidableEq O] in
/-- The kernel may answer with `fd` to a request for a new descriptor. -/
def unused (s : Files O) (fd : Int) : Bool := 0 ≤ fd && (s.table fd).isNone

/-- `Close` of the object `o`, which is `f`. -/
def Close (s : Files O) (o : O) (f : File) (ok : Bool) : Files O × CloseStatus :=
  if f.Valid then
    let closes := s.closes ++ [(s.given o, s.table f.fd_)]
    if (s.table f.fd_).isSome && ok then
      ({ s with
          file := update s.file o (some { f with fd_ := File.INVALID_FD })
          table := update s.table f.fd_ none
          given := update s.given o none
          closes := closes }, .success)
    else ({ s with table := update s.table f.fd_ none, closes := closes }, .error)
  else (s, .invalid)

/-- One step of the process. -/
def step : FileLabel O → Files O → Option (Files O)
  | .open o fd flags, s =>
    if s.file o ≠ none then none
    else if fd = File.INVALID_FD then
      some { s with
        file := update s.file o (some ⟨fd, flags⟩)
        given := update s.given o none }
    else if s.unused fd then
      some { s with
        file := update s.file o (some ⟨fd, flags⟩)
        table := update s.table fd (some s.opened)
        opened := s.opened + 1
        given := update s.given o (some s.opened)
        taken := s.taken ++ [s.opened] }
    else none
  | .from o fd, s =>
    if s.file o ≠ none then none
    else some { s with
      file := update s.file o (some ⟨fd, 0⟩)
      given := update s.given o (s.table fd)
      taken := s.taken ++ (s.table fd).toList }
  | .move o p, s =>
    match s.file o, s.file p with
    | none, some f =>
      some { s with
        file := update (update s.file p (some File.moved)) o (some f)
        given := update (update s.given p none) o (s.given p) }
    | _, _ => none
  | .assign o p, s =>
    match s.file o, s.file p with
    | some f, some g =>
      -- `if (this == &other)`
      if o = p then some s
      else some { s with
        file := update (update s.file o (some { f with fd_ := g.fd_ })) p
          (some { g with fd_ := f.fd_ })
        given := update (update s.given o (s.given p)) p (s.given o) }
    | _, _ => none
  | .close o ok, s => (s.file o).map fun f => (s.Close o f ok).1
  | .destroy o ok, s => (s.file o).map fun f =>
      { (s.Close o f ok).1 with
        file := update (s.Close o f ok).1.file o none
        given := update (s.Close o f ok).1.given o none }
  | .foreignOpen fd, s =>
    if s.unused fd then
      some { s with table := update s.table fd (some s.opened), opened := s.opened + 1 }
    else none
  | .foreignClose fd, s => some { s with table := update s.table fd none }

end Files

/-- A process with any number of `File`s, and other code. -/
def files (O : Type*) [DecidableEq O] : System (Files O) (FileLabel O) where
  init s := s = Files.start
  step := Files.step

end Lizlib
