import HostPattern.CommandLine.Reader

/-!
# How a command line may be written

Words stand in their order, and options once each, in any order and anywhere between them.
A flag has a long name and may have a letter; letters may share one hyphen, and the letter
of the directory's option may be the last of them.  The directory stands behind the name or
letter of its option, with or without an equals sign, or in the next argument.  Words that
look like options stand after a lone pair of hyphens, where everything is a word.
-/

namespace HostPattern

open Text

def hyphen : UInt8 := 0x2D

def equalsSign : UInt8 := 0x3D

/-- The argument is no option: it does not begin with a hyphen, or is nothing but one. -/
def StandsAlone (argument : Bytes) : Prop :=
  argument.head? = some hyphen → argument = [hyphen]

instance (argument : Bytes) : Decidable (StandsAlone argument) :=
  inferInstanceAs (Decidable (argument.head? = some hyphen → argument = [hyphen]))

namespace Flag

def HasLetter (flag : Flag) : Prop :=
  (Choice.flag flag).short?.isSome = true

instance (flag : Flag) : Decidable flag.HasLetter :=
  inferInstanceAs (Decidable ((Choice.flag flag).short?.isSome = true))

end Flag

namespace Choice

def longArgument (choice : Choice) : Bytes :=
  hyphen :: hyphen :: Utf8.encode choice.long

def letters (choices : List Choice) : List Char :=
  choices.filterMap short?

def lettersArgument (choices : List Choice) : Bytes :=
  hyphen :: Utf8.encodeChars (letters choices)

end Choice

inductive DirName
  | long
  /-- By its letter, behind those of flags. -/
  | letter (flags : List Flag)
  deriving DecidableEq, Repr

namespace DirName

def flags : DirName → List Flag
  | long => []
  | letter flags => flags

def argument : DirName → Bytes
  | long => Choice.dir.longArgument
  | letter flags => Choice.lettersArgument (flags.map .flag ++ [.dir])

end DirName

inductive Attachment
  /-- Right behind a letter. -/
  | joined
  /-- Behind an equals sign. -/
  | equals
  /-- In the next argument. -/
  | apart
  deriving DecidableEq, Repr

/-- A word, flags in one argument, or a directory with its option. -/
inductive Piece
  | word (text : String)
  | long (flag : Flag)
  | letters (flags : List Flag)
  | dir (name : DirName) (attachment : Attachment) (value : Bytes)
  deriving DecidableEq, Repr

namespace Piece

def words : Piece → List String
  | word text => [text]
  | _ => []

def flags : Piece → List Flag
  | word _ => []
  | long flag => [flag]
  | letters flags => flags
  | dir name _ _ => name.flags

def dirs : Piece → List Bytes
  | dir _ _ value => [value]
  | _ => []

def arguments : Piece → List Bytes
  | word text => [Utf8.encode text]
  | long flag => [(Choice.flag flag).longArgument]
  | letters flags => [Choice.lettersArgument (flags.map .flag)]
  | dir name .joined value => [name.argument ++ value]
  | dir name .equals value => [name.argument ++ equalsSign :: value]
  | dir name .apart value => [name.argument, value]

/-- The piece is read as what it stands for. -/
def IsWritable : Piece → Prop
  | word text => StandsAlone (Utf8.encode text)
  | long _ => True
  | letters flags => flags ≠ [] ∧ ∀ flag ∈ flags, flag.HasLetter
  | dir name .joined value =>
    name ≠ .long ∧ (∀ flag ∈ name.flags, flag.HasLetter) ∧ value.head? ≠ some equalsSign
  | dir name .equals _ => ∀ flag ∈ name.flags, flag.HasLetter
  | dir name .apart value => (∀ flag ∈ name.flags, flag.HasLetter) ∧ StandsAlone value

instance : (piece : Piece) → Decidable piece.IsWritable
  | word text => inferInstanceAs (Decidable (StandsAlone (Utf8.encode text)))
  | long _ => inferInstanceAs (Decidable True)
  | letters flags =>
    inferInstanceAs (Decidable (flags ≠ [] ∧ ∀ flag ∈ flags, flag.HasLetter))
  | dir name .joined value =>
    inferInstanceAs (Decidable (name ≠ .long ∧ (∀ flag ∈ name.flags, flag.HasLetter) ∧
      value.head? ≠ some equalsSign))
  | dir name .equals _ => inferInstanceAs (Decidable (∀ flag ∈ name.flags, flag.HasLetter))
  | dir name .apart value =>
    inferInstanceAs (Decidable ((∀ flag ∈ name.flags, flag.HasLetter) ∧ StandsAlone value))

end Piece

/-- A way to write the command line. -/
structure Spelling (line : CommandLine) where
  pieces : List Piece
  /-- The words after a lone pair of hyphens, if there is one. -/
  late : Option (List String)
  writable : ∀ piece ∈ pieces, piece.IsWritable
  words_eq : pieces.flatMap Piece.words ++ late.getD [] = line.words
  dirs_eq : pieces.flatMap Piece.dirs = line.dir.toList
  flags_nodup : (pieces.flatMap Piece.flags).Nodup
  mem_flags_iff : ∀ flag, flag ∈ pieces.flatMap Piece.flags ↔ line.has flag = true

namespace Spelling

def lateArguments : Option (List String) → List Bytes
  | none => []
  | some words => [hyphen, hyphen] :: words.map Utf8.encode

def arguments {line : CommandLine} (spelling : Spelling line) : List Bytes :=
  spelling.pieces.flatMap Piece.arguments ++ lateArguments spelling.late

end Spelling

end HostPattern
