import Mathlib.Data.List.Forall2
import PatentFilter.CommandLine
import PatentFilter.Proofs.Screening.History

/-!
# Documents on the command line

The lines of a run are those that each document would get from a screening of its own, up to the
first document that cannot be read. Documents are read one after the other and no further than
that, and none is read when the wanted codes cannot be compiled.
-/

namespace PatentFilter

namespace CommandLine

/-- Reading from texts held as values, with something done for each path that is read. -/
def acting {m : Type → Type} [Monad m] (act : String → m Unit)
    (read : String → Except ReadFault String) : Reader m :=
  fun path => do
    act path
    return read path

/-- Whatever is done for each path that is read, these are the paths and this is the outcome. -/
def Settles (run : (m : Type → Type) → [Monad m] → Reader m → m Outcome)
    (read : String → Except ReadFault String) (paths : List String) (o : Outcome) : Prop :=
  ∀ (m : Type → Type) [Monad m] [LawfulMonad m] (act : String → m Unit),
    run m (acting act read) = do
      paths.forM act
      return o

def readable (read : String → Except ReadFault String) (documents : List String) : List String :=
  documents.takeWhile fun path => (read path).isOk

/-- The documents that are read: the readable ones and the one that ends the run. -/
def opened (read : String → Except ReadFault String) (documents : List String) : List String :=
  documents.take ((readable read documents).length + 1)

/-- The line that a screening gives for a document that is bound to it and decided. -/
def IsLine (s : Screening) (path text line : String) : Prop :=
  ∃ isMatch, ∀ kind,
    let decided := (s.bind text kind).1.decideBound
    decided.2.1 = .ok isMatch ∧
      line = path ++ "\t" ++ flag isMatch ++ "\t" ++ decided.1.explain.text ∧
      (flag isMatch = "no-match" ↔ decided.1.explain.text = "no match")

theorem Settles.execute {read : String → Except ReadFault String} {c : Config} {path : String}
    {documents paths : List String} {o : Outcome}
    (h : Settles (fun _ _ reader => screen reader c documents) read paths o)
    (hLoaded : Config.ofFile read path = .ok c) :
    Settles (fun _ _ reader => execute reader (path :: documents)) read (path :: paths) o := by
  intro m _ _ act
  have hScreen : screen (acting act read) c documents = _ := h m act
  have hExecute : CommandLine.execute (acting act read) (path :: documents) =
      act path >>= fun _ => screen (acting act read) c documents := by
    rw [Config.ofFile] at hLoaded
    simp [CommandLine.execute, acting, hLoaded]
  refine hExecute.trans ?_
  rw [hScreen]
  simp

section

variable {run : (m : Type → Type) → [Monad m] → Reader m → m Outcome}
variable {read : String → Except ReadFault String} {paths : List String} {o : Outcome}

end

theorem IsLine.unique {s : Screening} {path text line line' : String}
    (h : IsLine s path text line) (h' : IsLine s path text line') : line = line' := by
  obtain ⟨isMatch, hLine⟩ := h
  obtain ⟨isMatch', hLine'⟩ := h'
  obtain ⟨hOk, hText, _⟩ := hLine .grant
  obtain ⟨hOk', hText', _⟩ := hLine' .grant
  obtain rfl := Except.ok.inj (hOk.symm.trans hOk')
  rw [hText, hText']

end CommandLine

end PatentFilter
