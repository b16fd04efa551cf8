import Mathlib.Data.List.Flatten
import JarPruning.Proofs.Bytecode.Accesses
import JarPruning.Proofs.Metadata.Weight
import JarPruning.Proofs.Pass.Ledgers
import JarPruning.Proofs.Pass.Parts
import JarPruning.Proofs.Pass.Sole

/-!
The weight of a class: more than as often as a pass can change it. Whatever a pass reports as a
change makes something lighter: a table loses an annotation, a list of links a row, a body a field
access, a member goes, a body becomes a stub for the only time, or the metadata loses a record.
-/
namespace JarPruning

open BigEndian
open AnnotationEntry (readTable tableBytes)
open ConstantPool (Grows)

/-- Rows of two bytes and more that go leave as many bytes less. -/
theorem length_flatMap_sublist {α : Type} {f : α → List UInt8} {l m : List α}
    (h : List.Sublist l m) (hsome : ∀ a ∈ m, 2 ≤ (f a).length) :
    (l.flatMap f).length + 2 * (m.length - l.length) ≤ (m.flatMap f).length := by
  induction h with
  | slnil => exact Nat.le_refl _
  | @cons l m a h ih =>
    have hrest := ih fun b hb => hsome b (List.mem_cons_of_mem _ hb)
    have hone := hsome a (List.mem_cons_self ..)
    have hle := h.length_le
    rw [List.flatMap_cons, List.length_append, List.length_cons]
    omega
  | @cons_cons l m a h ih =>
    have hrest := ih fun b hb => hsome b (List.mem_cons_of_mem _ hb)
    rw [List.flatMap_cons, List.flatMap_cons, List.length_append, List.length_append,
      List.length_cons, List.length_cons]
    omega

/-- The digits of the new count may look like field accesses, the rows that stay looked like them
before. -/
theorem accesses_countedBytes_le {α : Type} {f : α → List UInt8} {l m : List α}
    (h : List.Sublist l m) : accesses (countedBytes f l) ≤ accesses (countedBytes f m) + 2 := by
  have hrows : accesses (l.flatMap f) ≤ accesses (m.flatMap f) :=
    (h.flatMap f).countP_le
  have hcount := accesses_le_length (digits 2 l.length)
  rw [length_digits] at hcount
  simp only [countedBytes, accesses_append]
  omega

theorem or_toNat_le (a b : Bool) : (a || b).toNat ≤ a.toNat + b.toNat := by
  cases a <;> cases b <;> decide

theorem AnnotationEntry.two_le_length_bytes (a : AnnotationEntry) : 2 ≤ a.bytes.length := by
  rw [bytes_eq, List.length_append, length_word16]
  exact Nat.le_add_right ..

namespace Attribute

/-- The annotations of a table that can be read. -/
def table? (pool : ConstantPool) (a : Attribute) : Option (List AnnotationEntry) :=
  if a.isAnnotations pool then (readTable a.payload).toOption else none

/-- Tables count their annotations, so that a replacement of one weighs nothing. Of other attributes
the bytes count double, since the rows of a table may go and leave a count with two accesses. -/
def weight (pool : ConstantPool) (a : Attribute) : Nat :=
  match a.table? pool with
  | some table => table.length + 1
  | none => 2 * a.payload.length + accesses a.payload + 1

variable {p q pool : ConstantPool} {a b : Attribute} {table : List AnnotationEntry}

theorem weight_table (ha : a.isAnnotations pool = true) (h : readTable a.payload = .ok table) :
    a.weight pool = table.length + 1 := by
  rw [weight, table?, if_pos ha, h]
  rfl

theorem weight_plain (ha : a.isAnnotations pool = false) :
    a.weight pool = 2 * a.payload.length + accesses a.payload + 1 := by
  rw [weight, table?, if_neg (by rw [ha]; exact Bool.false_ne_true)]

theorem weight_payload (ha : a.isAnnotations pool = false) (payload : List UInt8) :
    ({ a with payload } : Attribute).weight pool = 2 * payload.length + accesses payload + 1 :=
  weight_plain ha

theorem weight_pos (pool : ConstantPool) (a : Attribute) : 0 < a.weight pool := by
  unfold weight
  split <;> exact Nat.succ_pos _

/-- An attribute weighs less as a table than by its bytes. -/
theorem weight_le (pool : ConstantPool) (a : Attribute) :
    a.weight pool ≤ 2 * a.payload.length + accesses a.payload + 1 := by
  cases ha : a.isAnnotations pool with
  | false => exact Nat.le_of_eq (weight_plain ha)
  | true =>
    cases h : readTable a.payload with
    | error e =>
      rw [weight, table?, if_pos ha, h]
      exact Nat.le_refl _
    | ok table =>
      have hrows := length_flatMap_sublist (f := AnnotationEntry.bytes) (List.nil_sublist table)
        fun e _ => e.two_le_length_bytes
      rw [weight_table ha h, (AnnotationEntry.of_readTable h).1, tableBytes, countedBytes,
        List.length_append]
      rw [List.flatMap_nil, List.length_nil, List.length_nil] at hrows
      omega

/-- A name that a larger pool reads may make a table of an attribute. -/
theorem weight_grow (hgrows : Grows p q) (a : Attribute) : a.weight q ≤ a.weight p := by
  cases ha : a.isAnnotations p with
  | false =>
    rw [weight_plain ha]
    exact a.weight_le q
  | true =>
    rw [weight, weight, table?, table?, if_pos ha, if_pos (hgrows.isAnnotations ha)]

def weights (pool : ConstantPool) (as : List Attribute) : Nat := (as.map (weight pool)).sum

theorem weights_cons (pool : ConstantPool) (a : Attribute) (as : List Attribute) :
    weights pool (a :: as) = a.weight pool + weights pool as := rfl

theorem weights_append (pool : ConstantPool) (as bs : List Attribute) :
    weights pool (as ++ bs) = weights pool as + weights pool bs := by
  rw [weights, List.map_append, List.sum_append]
  rfl

theorem weights_grow (hgrows : Grows p q) (as : List Attribute) :
    weights q as ≤ weights p as := by
  induction as with
  | nil => exact Nat.le_refl _
  | cons a as ih => exact Nat.add_le_add (weight_grow hgrows a) ih

/-- An edit makes the weight what the edited attribute makes it. -/
theorem weights_modify (pool : ConstantPool) {as : List Attribute} {position : Nat}
    (edit : Attribute → Attribute) (h : as[position]? = some a) :
    weights pool (as.modify position edit) + a.weight pool =
      weights pool as + (edit a).weight pool := by
  obtain ⟨hlt, rfl⟩ := List.getElem?_eq_some_iff.1 h
  rw [List.modify_eq_take_cons_drop hlt]
  have hsplit : weights pool as = weights pool (as.take position) +
      (as[position].weight pool + weights pool (as.drop (position + 1))) := by
    rw [← weights_cons, ← List.drop_eq_getElem_cons hlt, ← weights_append, List.take_append_drop]
  rw [hsplit, weights_append, weights_cons]
  omega

end Attribute

open Attribute (weights)

namespace Marked

variable {pool : ConstantPool} {ms : List Marked}

/-- What is reported as stripped is lighter. -/
theorem Read.strip_weight {m : Marked} (h : m.Read pool) (drop : String → Bool) :
    weights pool (m.strip drop).1.toList + (m.strip drop).2.toNat ≤ m.source.weight pool := by
  have hstripped := strip_stripped drop m
  generalize m.strip drop = r at hstripped
  cases hstripped with
  | whole _ => exact Nat.le_refl _
  | emptied _ _ _ => exact m.source.weight_pos pool
  | thinned hmarked _ hfewer =>
    cases h with
    | plain _ => cases hmarked
    | @table a named hannotations hspelled hresolved =>
      have hread : Read pool ⟨a, some named⟩ := .table hannotations hspelled hresolved
      have hfits : AnnotationEntry.TableFits ((kept drop (Marked.entries ⟨a, some named⟩)).map (·.1)) :=
        hread.kept_fits rfl
      have hthinned : ({ a with payload := tableBytes _ } : Attribute).weight pool = _ :=
        Attribute.weight_table hannotations (AnnotationEntry.readTable_tableBytes hfits)
      rw [List.length_map] at hthinned
      rw [Attribute.weight_table hannotations hspelled, List.length_map, Option.toList_some,
        Attribute.weights_cons, hthinned]
      exact Nat.add_le_add_right hfewer 1

theorem stripAll_weight (drop : String → Bool) (h : ∀ m ∈ ms, m.Read pool) :
    weights pool (stripAll drop ms).1 + (stripAll drop ms).2.toNat ≤
      weights pool (ms.map source) := by
  induction ms with
  | nil => exact Nat.le_refl _
  | cons m ms ih =>
    have hfirst := (h m (List.mem_cons_self ..)).strip_weight drop
    have hrest := ih fun m hm => h m (List.mem_cons_of_mem _ hm)
    have hflag : (stripAll drop (m :: ms)).2 = ((m.strip drop).2 || (stripAll drop ms).2) := rfl
    have hor := or_toNat_le (m.strip drop).2 (stripAll drop ms).2
    rw [stripAll_cons, Attribute.weights_append, hflag, List.map_cons, Attribute.weights_cons]
    omega

end Marked

namespace Link

variable {pool : ConstantPool} {a : Attribute} {link : Link}

theorem thinRows_weight {α : Type} {read : Reader (Walk.Row α)} {p : Walk.Row α → Prop}
    (hplain : a.isAnnotations pool = false)
    (hread : Reader.Finds read fun row front => front = row.raw ∧ p row)
    (hsome : ∀ row, p row → 2 ≤ row.raw.length) {table : List (Walk.Row α)}
    (h : rows read a = .ok table) (keep : α → Bool) :
    (thinRows keep table a).1.weight pool + (thinRows keep table a).2.toNat ≤ a.weight pool := by
  unfold thinRows
  dsimp only
  split
  · exact Nat.le_refl _
  · next hfewer =>
    obtain ⟨front, rest, hpayload, rfl, -, hrows⟩ := (Reader.counted_finds hread).front h
    have hkept : List.Sublist (table.filter fun row => keep row.value) table := List.filter_sublist
    have hfewer := Nat.lt_of_le_of_ne (List.length_filter_le ..) hfewer
    have hlength := length_flatMap_sublist (f := Walk.Row.raw) hkept
      fun row hrow => hsome row (hrows row hrow)
    have haccesses := accesses_countedBytes_le (f := Walk.Row.raw) hkept
    rw [Attribute.weight_plain hplain, Attribute.weight_payload hplain, hpayload,
      List.length_append, accesses_append, Bool.toNat_true]
    simp only [countedBytes, List.length_append, length_digits] at haccesses ⊢
    omega

/-- A link that is reported as thinned is lighter. -/
theorem Read.thin_weight (h : Read pool a link) (t : Tracker) (self : String) :
    (link.thin t self a).1.weight pool + (link.thin t self a).2.toNat ≤ a.weight pool := by
  have hplain {name : String} (hnamed : pool.utf8 a.name = .ok name)
      (hname : name ≠ "RuntimeVisibleAnnotations" ∧ name ≠ "RuntimeInvisibleAnnotations") :
      a.isAnnotations pool = false :=
    Attribute.not_isAnnotations_of_isNamed (ConstantPool.hasText_iff.2 hnamed) hname.1 hname.2
  cases h with
  | outer _ _ => exact Nat.le_refl _
  | host _ _ => exact Nat.le_refl _
  | none _ _ => exact Nat.le_refl _
  | inner hnamed hread =>
    exact thinRows_weight (hplain hnamed (by decide)) (Walk.readInnerRow_finds pool)
      (fun row hrow => by rw [hrow.1]; decide) hread _
  | listed hnamed hlists hread =>
    refine thinRows_weight (hplain hnamed (by rcases hlists with rfl | rfl <;> decide))
      (Walk.readReferenceRow_finds pool) (fun row hrow => ?_) hread _
    obtain ⟨index, hraw, -⟩ := hrow
    rw [hraw, length_word16]

theorem thinned_weight (t : Tracker) (self : String) {links : List (Attribute × Link)}
    (h : ∀ p ∈ links, Read pool p.1 p.2) :
    weights pool (links.map fun p => (p.2.thin t self p.1).1) +
      (links.any fun p => (p.2.thin t self p.1).2).toNat ≤ weights pool (links.map (·.1)) := by
  induction links with
  | nil => exact Nat.le_refl _
  | cons p links ih =>
    have hfirst := (h p (List.mem_cons_self ..)).thin_weight t self
    have hrest := ih fun p hp => h p (List.mem_cons_of_mem _ hp)
    have hor := or_toNat_le (p.2.thin t self p.1).2 (links.any fun p => (p.2.thin t self p.1).2)
    rw [List.map_cons, List.map_cons, List.any_cons, Attribute.weights_cons, Attribute.weights_cons]
    omega

end Link

end JarPruning
