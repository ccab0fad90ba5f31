import Deliberation.Term.Equality

/-!
# Storage of facts

A storage has, under each key, a bucket of facts and at most one single
element. A bucket keeps its facts twice: in the order of arrival, which queries
read, and as a set, which decides what is new and what is there. It is dropped
with its last fact. Keys need not be the functors of the facts under them.
-/

namespace Deliberation

set_option autoImplicit false

/-- The order of the members says nothing; no two of them are the same. -/
structure Bucket where
  order : List Literal
  members : List Literal

namespace Bucket

def empty : Bucket := ⟨[], []⟩

def contains (bucket : Bucket) (fact : Literal) : Bool :=
  bucket.members.any fact.same

/-- Reports whether the fact is new. -/
def insert (bucket : Bucket) (fact : Literal) : Bool × Bucket :=
  if bucket.contains fact then (false, bucket)
  else (true, ⟨bucket.order ++ [fact], fact :: bucket.members⟩)

/-- Reports whether the fact was there. The set loses the one member that is the
same; the order loses all that are. -/
def remove (bucket : Bucket) (fact : Literal) : Bool × Bucket :=
  if bucket.contains fact then
    (true, ⟨bucket.order.filter fun other => !fact.same other, bucket.members.eraseP fact.same⟩)
  else (false, bucket)

def isEmpty (bucket : Bucket) : Bool :=
  bucket.order.isEmpty

end Bucket

structure Storage where
  buckets : List (Path × Bucket)
  singles : List (Path × Term)

namespace Storage

def empty : Storage := ⟨[], []⟩

section Entries

variable {Content : Type}

def findEntry (key : Path) : List (Path × Content) → Option Content
  | [] => none
  | (other, content) :: rest => if other = key then some content else findEntry key rest

def dropEntry (key : Path) : List (Path × Content) → List (Path × Content)
  | [] => []
  | (other, content) :: rest =>
      if other = key then rest else (other, content) :: dropEntry key rest

/-- Takes the place of an entry under the same key. -/
def putEntry (key : Path) (content : Content) (entries : List (Path × Content)) :
    List (Path × Content) :=
  (key, content) :: dropEntry key entries

end Entries

def bucket? (storage : Storage) (key : Path) : Option Bucket :=
  findEntry key storage.buckets

def multi (storage : Storage) (key : Path) : List Literal :=
  match storage.bucket? key with
  | some bucket => bucket.order
  | none => []

def single? (storage : Storage) (key : Path) : Option Term :=
  findEntry key storage.singles

def containsMulti (storage : Storage) (key : Path) : Bool :=
  (storage.bucket? key).isSome

def containsSingle (storage : Storage) (key : Path) : Bool :=
  (storage.single? key).isSome

def contains (storage : Storage) (key : Path) : Bool :=
  storage.containsMulti key || storage.containsSingle key

def containsItem (storage : Storage) (key : Path) (fact : Literal) : Bool :=
  match storage.bucket? key with
  | some bucket => bucket.contains fact
  | none => false

/-- Opens a bucket where there is none, and reports whether the fact is new. -/
def putMulti (storage : Storage) (key : Path) (fact : Literal) : Bool × Storage :=
  let (added, bucket) := ((storage.bucket? key).getD .empty).insert fact
  (added, { storage with buckets := putEntry key bucket storage.buckets })

/-- Drops a bucket that becomes empty, and reports whether the fact was there. -/
def removeMulti (storage : Storage) (key : Path) (fact : Literal) : Bool × Storage :=
  match storage.bucket? key with
  | none => (false, storage)
  | some bucket =>
      let (removed, left) := bucket.remove fact
      let buckets :=
        if left.isEmpty then dropEntry key storage.buckets
        else putEntry key left storage.buckets
      (removed, { storage with buckets := buckets })

/-- Overwrites in any case and reports whether the place was free. -/
def putSingle (storage : Storage) (key : Path) (term : Term) : Bool × Storage :=
  (!storage.containsSingle key, { storage with singles := putEntry key term storage.singles })

def removeSingle (storage : Storage) (key : Path) : Bool × Storage :=
  (storage.containsSingle key, { storage with singles := dropEntry key storage.singles })

def countFacts : List (Path × Bucket) → Nat
  | [] => 0
  | (_, bucket) :: rest => bucket.order.length + countFacts rest

/-- Single elements are not counted. -/
def size (storage : Storage) : Nat :=
  countFacts storage.buckets

def isEmpty (storage : Storage) : Bool :=
  storage.buckets.isEmpty && storage.singles.isEmpty

def clear (storage : Storage) : Storage :=
  { storage with buckets := [], singles := [] }

end Storage

end Deliberation
