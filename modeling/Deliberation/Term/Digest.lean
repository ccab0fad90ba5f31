import Deliberation.Term.Leaves

/-!
# Digests of literals

Literals are matched by digests of word sequences. The words for the values are the arity,
the functor where there are no arguments, and a walk through the arguments with a stack of
the lists still open: each literal that is entered leaves a 1 with its functor, sign and
arity, and every other term a 0. The words for the annotations are their number and the
functor and value digest of each. The hash function is whatever it is given as; `rotating`
is the one in use. Its digests have 64 bits, so literals of different shapes may match.
-/

namespace Deliberation

set_option autoImplicit false

inductive Word where
  | count (number : Nat)
  | byte (value : UInt8)
  | path (path : Path)
  | digest (value : UInt64)
  deriving DecidableEq

abbrev Hasher := List Word → UInt64

def signByte (negated : Bool) : UInt8 :=
  if negated then 1 else 0

def shapeWordsFrom : List (List Term) → List Word
  | [] => []
  | [] :: stack => shapeWordsFrom stack
  | (.literal (.mk functor negated _ arguments _) :: rest) :: stack =>
      .byte 1 :: .path functor :: .byte (signByte negated) :: .count arguments.length ::
        shapeWordsFrom (arguments :: rest :: stack)
  | (.value _ :: rest) :: stack => .byte 0 :: shapeWordsFrom (rest :: stack)
  | (.variable _ :: rest) :: stack => .byte 0 :: shapeWordsFrom (rest :: stack)
  | (.bound _ _ :: rest) :: stack => .byte 0 :: shapeWordsFrom (rest :: stack)
termination_by stack => openSize stack
decreasing_by
  all_goals simp only [openSize, Term.totalSize, Term.size, Literal.size]
  all_goals omega

def shapeWords (functor : Path) (arguments : List Term) : List Word :=
  .count arguments.length ::
    (if arguments.isEmpty then [.path functor] else []) ++ shapeWordsFrom [arguments]

/-- The words for annotations with these functors and value digests. -/
def noteWords (notes : List (Path × UInt64)) : List Word :=
  .count notes.length :: notes.flatMap fun note => [.path note.1, .digest note.2]

namespace Literal

def valueWords (literal : Literal) : List Word :=
  shapeWords literal.functor literal.arguments

def valueDigest (hash : Hasher) (literal : Literal) : UInt64 :=
  hash literal.valueWords

def annotationWords (hash : Hasher) (literal : Literal) : List Word :=
  noteWords (literal.annotations.map fun note => (note.functor, note.valueDigest hash))

def annotationDigest (hash : Hasher) (literal : Literal) : UInt64 :=
  hash (literal.annotationWords hash)

def matchesValue (hash : Hasher) (left right : Literal) : Bool :=
  left.valueDigest hash == right.valueDigest hash

def matchesExact (hash : Hasher) (left right : Literal) : Bool :=
  left.valueDigest hash == right.valueDigest hash &&
    left.annotationDigest hash == right.annotationDigest hash

end Literal

namespace Hasher

/-- Eight bytes at a time, and what is left over as four, two and one. -/
def chunkSizes (length : Nat) : List Nat :=
  List.replicate (length / 8) 8 ++ [4, 2, 1].filter fun size => length % (2 * size) ≥ size

def littleEndian (bytes : List UInt8) : UInt64 :=
  bytes.foldr (fun byte rest => byte.toUInt64 + 256 * rest) 0

def chunks : List Nat → List UInt8 → List UInt64
  | [], _ => []
  | size :: sizes, bytes => littleEndian (bytes.take size) :: chunks sizes (bytes.drop size)

/-- The numbers that a word is mixed in as; a byte that no text has ends a path. -/
def numbers : Word → List UInt64
  | .count number => [UInt64.ofNat number]
  | .byte value => [value.toUInt64]
  | .path path =>
      let bytes := path.text.toList.flatMap String.utf8EncodeChar
      chunks (chunkSizes bytes.length) bytes ++ [255]
  | .digest value => [value]

/-- Each number is mixed in after a turn by five bits. -/
def mix (state number : UInt64) : UInt64 :=
  (((state <<< 5) ||| (state >>> 59)) ^^^ number) * 0x517cc1b727220a95

def rotating : Hasher := fun words =>
  (words.flatMap numbers).foldl mix 0

end Hasher

end Deliberation
