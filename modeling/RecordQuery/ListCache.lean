universe u

namespace RecordQuery

structure CacheEntry (α : Type u) where
  stamp : Nat
  key : String
  rows : α

structure ListCache (α : Type u) where
  timeout : Nat
  entry : Option (CacheEntry α)

namespace ListCache

variable {α : Type u}

def empty (timeout : Nat) : ListCache α := ⟨timeout, none⟩

def fresh? (now : Nat) (key : String) (c : ListCache α) : Option α :=
  match c.entry with
  | none => none
  | some e => if e.key = key ∧ now - e.stamp < c.timeout then some e.rows else none

def replace (now : Nat) (key : String) (rows : α) (c : ListCache α) : ListCache α :=
  { c with entry := some ⟨now, key, rows⟩ }

def invalidate (c : ListCache α) : ListCache α := { c with entry := none }

end ListCache

end RecordQuery
