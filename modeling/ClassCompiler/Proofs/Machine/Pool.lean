import Mathlib.Data.List.Induction
import Mathlib.Data.List.Pairwise
import ClassCompiler.Proofs.Machine.Constants
import ClassCompiler.Proofs.Spans

/-!
# The constant pool

A pool holds the constants that were added to it without those that are the same as an earlier one,
in the order of their arrival. The indices of its entries lie one behind the other, from one on: so
the entries share no index, and constants are given one index if and only if they are the same, as
long as all indices are 16-bit words.

Behind the last word the next index starts again, and a constant is given the index of another one.

* `ConstantPool.Indexed`: the buckets of a pool agree with the list of its entries
* `ConstantPool.constants_ofConstants`: the constants of a pool
* `ConstantPool.Numbered`: the indices of a pool lie one behind the other
* `ConstantPool.indices_unique`, `ConstantPool.first_index_again`
-/

namespace ClassCompiler

namespace ConstantPool

/-- The pool that constants make when they join it one by one. -/
def ofConstants (constants : List Constant) : ConstantPool :=
  constants.foldl (fun pool constant => (pool.add constant).2) {}

theorem ofConstants_append (one two : List Constant) :
    ofConstants (one ++ two)
      = two.foldl (fun pool constant => (pool.add constant).2) (ofConstants one) :=
  List.foldl_append

theorem ofConstants_concat (constants : List Constant) (constant : Constant) :
    ofConstants (constants ++ [constant]) = ((ofConstants constants).add constant).2 :=
  ofConstants_append constants [constant]

/-- The constants of some calls, each with the index that it is given. -/
def given (pool : ConstantPool) : List Constant → List (UInt16 × Constant)
  | [] => []
  | constant :: rest => ((pool.add constant).1, constant) :: (pool.add constant).2.given rest

theorem given_append (pool : ConstantPool) (one two : List Constant) :
    pool.given (one ++ two) = pool.given one
      ++ (one.foldl (fun pool constant => (pool.add constant).2) pool).given two := by
  induction one generalizing pool with
  | nil => rfl
  | cons constant rest ih =>
    rw [List.cons_append, given, given, ih]
    rfl

theorem given_concat (constants : List Constant) (constant : Constant) :
    given {} (constants ++ [constant])
      = given {} constants ++ [(((ofConstants constants).add constant).1, constant)] :=
  given_append {} constants [constant]

theorem map_given (pool : ConstantPool) (constants : List Constant) :
    (pool.given constants).map (·.2) = constants := by
  induction constants generalizing pool with
  | nil => rfl
  | cons constant rest ih => rw [given, List.map_cons, ih]

variable {pool after : ConstantPool} {c : Constant}

/-! ## Entries -/

/-- The buckets hold the entries, and no two of them are the same constant. -/
structure Indexed (pool : ConstantPool) : Prop where
  buckets : ∀ c, pool.bucketOf c = pool.latest.filter fun entry => entry.2.bucket = c.bucket
  distinct : pool.entries.Pairwise fun e f => e.2.same f.2 = false

namespace Indexed

theorem empty : Indexed {} := ⟨fun _ => rfl, List.Pairwise.nil⟩

/-- A constant is looked for in its bucket only, but there is no other entry for it. -/
theorem indexOf?_eq (h : pool.Indexed) (c : Constant) :
    pool.indexOf? c = (pool.latest.find? fun entry => entry.2.same c).map (·.1) := by
  unfold indexOf?
  rw [h.buckets, List.find?_filter]
  congr 2
  funext entry
  cases hsame : entry.2.same c with
  | false => simp
  | true => simp [Constant.bucket_of_same hsame]

/-- What a pool does with a constant: it has an entry for it, or makes one. -/
theorem add_cases (h : pool.Indexed) (c : Constant) :
    (∃ entry ∈ pool.entries, entry.2.same c = true ∧ pool.add c = (entry.1, pool))
      ∨ (∀ entry ∈ pool.entries, entry.2.same c = false)
        ∧ ∃ after, pool.add c = (max pool.nextIndex 1, after)
          ∧ after.entries = pool.entries ++ [(max pool.nextIndex 1, c)]
          ∧ after.nextIndex = max pool.nextIndex 1 + c.width := by
  unfold add
  rw [h.indexOf?_eq]
  cases hfind : pool.latest.find? fun entry => entry.2.same c with
  | some entry =>
    have hmem : entry ∈ pool.entries := List.mem_reverse.mpr (List.mem_of_find?_eq_some hfind)
    have hsame : entry.2.same c = true := by simpa using List.find?_some hfind
    exact .inl ⟨entry, hmem, hsame, rfl⟩
  | none =>
    refine .inr ⟨?_, _, rfl, List.reverse_cons, rfl⟩
    intro entry hentry
    have hnone := List.find?_eq_none.mp hfind entry (List.mem_reverse.mp hentry)
    exact Bool.eq_false_iff.mpr hnone

/-- A constant that no entry is the same as. -/
theorem add_new (h : pool.Indexed) (hnew : ∀ d ∈ pool.entries.map (·.2), d.same c = false) :
    ∃ after, pool.add c = (max pool.nextIndex 1, after)
      ∧ after.entries = pool.entries ++ [(max pool.nextIndex 1, c)]
      ∧ after.nextIndex = max pool.nextIndex 1 + c.width := by
  rcases h.add_cases c with ⟨entry, hmem, hsame, _⟩ | ⟨_, hafter⟩
  · rw [hnew entry.2 (List.mem_map_of_mem hmem)] at hsame
    cases hsame
  · exact hafter

/-- An entry that is new is put in the bucket of its constant. -/
theorem buckets_add (h : pool.Indexed) (c d : Constant) : (pool.add c).2.bucketOf d
    = (pool.add c).2.latest.filter fun entry => entry.2.bucket = d.bucket := by
  unfold ConstantPool.add
  cases pool.indexOf? c with
  | some => exact h.buckets d
  | none =>
    unfold bucketOf
    rw [Table.get?_insert, List.filter_cons]
    by_cases hbucket : d.bucket = c.bucket
    · rw [if_pos hbucket, if_pos (by simpa using hbucket.symm), hbucket]
      exact congrArg _ (h.buckets c)
    · rw [if_neg hbucket, if_neg (by simpa using Ne.symm hbucket)]
      exact h.buckets d

theorem distinct_add (h : pool.Indexed) (c : Constant) :
    (pool.add c).2.entries.Pairwise fun e f => e.2.same f.2 = false := by
  obtain ⟨entry, _, _, heq⟩ | ⟨hnew, after, heq, hentries, _⟩ := h.add_cases c
  · rw [heq]
    exact h.distinct
  · rw [heq, hentries, List.pairwise_append]
    refine ⟨h.distinct, List.pairwise_singleton _ _, ?_⟩
    intro entry hentry last hlast
    rw [List.mem_singleton.mp hlast]
    exact hnew entry hentry

theorem add (h : pool.Indexed) (c : Constant) : (pool.add c).2.Indexed :=
  ⟨h.buckets_add c, h.distinct_add c⟩

theorem ofConstants (constants : List Constant) : (ofConstants constants).Indexed := by
  induction constants using List.reverseRecOn with
  | nil => exact empty
  | append_singleton constants c ih =>
    rw [ofConstants_concat]
    exact ih.add c

/-- Entries of constants that are the same are one entry. -/
theorem eq_of_same (h : pool.Indexed) {e f : UInt16 × Constant} (he : e ∈ pool.entries)
    (hf : f ∈ pool.entries) (hsame : e.2.same f.2 = true) : e = f := by
  have hsymm : Std.Symm fun e f : UInt16 × Constant => e.2.same f.2 = false :=
    ⟨fun e f hne => by rw [Constant.same_comm]; exact hne⟩
  by_contra hne
  have hother := h.distinct.forall he hf hne
  rw [hother] at hsame
  cases hsame

/-- A constant is found under the index of the entry for it. -/
theorem indexOf?_of_mem (h : pool.Indexed) {entry : UInt16 × Constant}
    (hentry : entry ∈ pool.entries) (hsame : entry.2.same c = true) :
    pool.indexOf? c = some entry.1 := by
  rw [h.indexOf?_eq]
  cases hfind : pool.latest.find? fun other => other.2.same c with
  | none =>
    have hnone := List.find?_eq_none.mp hfind entry (List.mem_reverse.mp hentry)
    exact absurd hsame hnone
  | some found =>
    have hmem : found ∈ pool.entries := List.mem_reverse.mpr (List.mem_of_find?_eq_some hfind)
    have hfound : found.2.same c = true := by simpa using List.find?_some hfind
    rw [h.eq_of_same hmem hentry (Constant.same_trans hfound (Constant.same_symm hsame))]
    rfl

/-- The entries that there are stay, and a call is given the index of an entry for its constant. -/
theorem mem_entries_add (h : pool.Indexed) (c : Constant) :
    pool.entries <+: (pool.add c).2.entries
      ∧ ∃ entry ∈ (pool.add c).2.entries, entry.1 = (pool.add c).1 ∧ entry.2.same c = true := by
  obtain ⟨entry, hmem, hsame, heq⟩ | ⟨_, after, heq, hentries, _⟩ := h.add_cases c
  · rw [heq]
    exact ⟨List.prefix_rfl, entry, hmem, rfl, hsame⟩
  · rw [heq, hentries]
    exact ⟨List.prefix_append _ _, _, List.mem_append_right _ List.mem_cons_self, rfl, c.same_self⟩

end Indexed

/-- Later calls leave the entries alone. -/
theorem entries_append (one two : List Constant) :
    (ofConstants one).entries <+: (ofConstants (one ++ two)).entries := by
  induction two using List.reverseRecOn with
  | nil => simp
  | append_singleton two c ih =>
    rw [← List.append_assoc, ofConstants_concat]
    exact ih.trans ((Indexed.ofConstants (one ++ two)).mem_entries_add c).1

/-- A call is given the index of an entry for its constant. -/
theorem entry_of_given (constants : List Constant) :
    ∀ call ∈ given {} constants, ∃ entry ∈ (ofConstants constants).entries,
      entry.1 = call.1 ∧ entry.2.same call.2 = true := by
  induction constants using List.reverseRecOn with
  | nil =>
    intro call hcall
    cases hcall
  | append_singleton constants c ih =>
    obtain ⟨hgrows, hlast⟩ := (Indexed.ofConstants constants).mem_entries_add c
    rw [given_concat, ofConstants_concat]
    intro call hcall
    rcases List.mem_append.mp hcall with hcall | hcall
    · obtain ⟨entry, hentry, hgiven⟩ := ih call hcall
      exact ⟨entry, hgrows.subset hentry, hgiven⟩
    · rw [List.mem_singleton.mp hcall]
      exact hlast

/-- The constant of an entry is one that was added. -/
theorem mem_of_entry {constants : List Constant} {entry : UInt16 × Constant}
    (hentry : entry ∈ (ofConstants constants).entries) : entry.2 ∈ constants := by
  induction constants using List.reverseRecOn with
  | nil => cases hentry
  | append_singleton constants c ih =>
    rw [ofConstants_concat] at hentry
    obtain ⟨_, _, _, heq⟩ | ⟨_, after, heq, hentries, _⟩ :=
      (Indexed.ofConstants constants).add_cases c
    · rw [heq] at hentry
      exact List.mem_append_left _ (ih hentry)
    · rw [heq, hentries] at hentry
      rcases List.mem_append.mp hentry with hentry | hentry
      · exact List.mem_append_left _ (ih hentry)
      · rw [List.mem_singleton.mp hentry]
        exact List.mem_append_right _ List.mem_cons_self

/-- Calls go on where the pool is, as the removal of duplicates goes on with what it has kept. -/
theorem constants_foldl (h : pool.Indexed) (constants : List Constant) :
    (constants.foldl (fun pool constant => (pool.add constant).2) pool).entries.map (·.2)
      = List.eraseDupsBy.loop Constant.same constants (pool.entries.map (·.2)).reverse := by
  induction constants generalizing pool with
  | nil =>
    rw [List.eraseDupsBy.loop, List.reverse_reverse]
    rfl
  | cons c rest ih =>
    rw [List.foldl_cons, ih (h.add c), List.eraseDupsBy.loop, List.any_reverse, List.any_map]
    obtain ⟨entry, hmem, hsame, heq⟩ | ⟨hnew, after, heq, hentries, _⟩ := h.add_cases c
    · have hany : pool.entries.any ((c.same ·) ∘ (·.2)) = true :=
        List.any_eq_true.mpr ⟨entry, hmem, Constant.same_symm hsame⟩
      rw [heq, hany]
    · have hany : pool.entries.any ((c.same ·) ∘ (·.2)) = false := by
        apply List.any_eq_false.mpr
        intro entry hentry hsame
        have hother := hnew entry hentry
        rw [Constant.same_symm hsame] at hother
        cases hother
      rw [heq, hany, hentries, List.map_append, List.reverse_append]
      rfl

/-- The constants of a pool are those that were added, without all that are the same as an earlier
one. -/
theorem constants_ofConstants (constants : List Constant) :
    (ofConstants constants).entries.map (·.2) = constants.eraseDupsBy Constant.same :=
  constants_foldl Indexed.empty constants

/-! ## Indices -/

/-- The greatest index. -/
def maxIndex : Nat := 65535

/-- The indices of an entry: two for `long` and `double`, and one for all others. -/
def span (entry : UInt16 × Constant) : Span := ⟨entry.1.toNat, if entry.2.isWide then 2 else 1⟩

/-- The indices that the entries of a pool take. -/
def taken (pool : ConstantPool) : Nat := Span.total (pool.entries.map span)

theorem width_span (entry : UInt16 × Constant) : entry.2.width.toNat = (span entry).width
    ∧ 1 ≤ (span entry).width ∧ (span entry).width ≤ 2 := by
  unfold Constant.width span
  cases entry.2.isWide <;> simp

theorem toNat_max_one (word : UInt16) : (max word 1).toNat = max word.toNat 1 := by
  have hmax : max word 1 = if word ≤ 1 then 1 else word := rfl
  have hone : (1 : UInt16).toNat = 1 := rfl
  rw [hmax]
  split
  · next h =>
    have hle : word.toNat ≤ (1 : UInt16).toNat := UInt16.le_iff_toNat_le.mp h
    omega
  · next h =>
    have hlt : ¬ word.toNat ≤ (1 : UInt16).toNat := mt UInt16.le_iff_toNat_le.mpr h
    omega

/-- The entries lie one behind the other, and the next one begins behind them, if there is still an
index. -/
structure Numbered (pool : ConstantPool) : Prop where
  adjoining : Span.Adjoining 1 (pool.entries.map span)
  next : 1 + pool.taken ≤ maxIndex → (max pool.nextIndex 1).toNat = 1 + pool.taken

theorem Numbered.empty : Numbered {} := ⟨trivial, fun _ => rfl⟩

theorem taken_concat {entry : UInt16 × Constant} (h : after.entries = pool.entries ++ [entry]) :
    after.taken = pool.taken + (span entry).width := by
  unfold taken
  rw [h, List.map_append, Span.total_append]
  rfl

theorem taken_le_add (h : pool.Indexed) (c : Constant) : pool.taken ≤ (pool.add c).2.taken := by
  obtain ⟨entry, _, _, heq⟩ | ⟨_, after, heq, hentries, _⟩ := h.add_cases c
  · exact Nat.le_of_eq (by rw [heq])
  · rw [heq, taken_concat hentries]
    exact Nat.le_add_right _ _

theorem Numbered.add (h : pool.Numbered) (hindexed : pool.Indexed) (c : Constant)
    (hroom : (pool.add c).2.taken ≤ maxIndex) : (pool.add c).2.Numbered := by
  obtain ⟨entry, _, _, heq⟩ | ⟨_, after, heq, hentries, hnext⟩ := hindexed.add_cases c
  · rw [heq]
    exact h
  · rw [heq] at hroom ⊢
    dsimp only at hroom ⊢
    obtain ⟨hwidth, hone, htwo⟩ := width_span (max pool.nextIndex 1, c)
    rw [taken_concat hentries] at hroom
    have hindex := h.next (by omega)
    constructor
    · rw [hentries, List.map_append]
      exact h.adjoining.concat hindex
    · intro hlast
      rw [taken_concat hentries] at hlast ⊢
      -- There is an index behind the entry, so the sum does not wrap around.
      rw [toNat_max_one, hnext, UInt16.toNat_add, hindex, hwidth, Nat.mod_eq_of_lt]
      · omega
      · unfold maxIndex at hlast
        omega

theorem Numbered.ofConstants (constants : List Constant)
    (hroom : (ofConstants constants).taken ≤ maxIndex) : (ofConstants constants).Numbered := by
  induction constants using List.reverseRecOn with
  | nil => exact empty
  | append_singleton constants c ih =>
    rw [ofConstants_concat] at hroom ⊢
    have hindexed := Indexed.ofConstants constants
    exact (ih (Nat.le_trans (taken_le_add hindexed c) hroom)).add hindexed c hroom

/-- Entries that share an index are one entry. -/
theorem Numbered.eq_of_mem (h : pool.Numbered) {e f : UInt16 × Constant} {index : Nat}
    (he : e ∈ pool.entries) (hf : f ∈ pool.entries) (hindex : index ∈ span e)
    (hindex' : index ∈ span f) : e = f := by
  have hapart := h.adjoining.apart
  rw [List.pairwise_map] at hapart
  have hsymm : Std.Symm fun e f : UInt16 × Constant => (span e).Apart (span f) :=
    ⟨fun _ _ hapart => hapart.symm⟩
  by_contra hne
  exact hapart.forall he hf hne index hindex hindex'

theorem mem_span (entry : UInt16 × Constant) : entry.1.toNat ∈ span entry := by
  have hwidth := (width_span entry).2.1
  exact ⟨Nat.le_refl _, Nat.lt_add_of_pos_right hwidth⟩

theorem Numbered.eq_of_index (h : pool.Numbered) {e f : UInt16 × Constant} (he : e ∈ pool.entries)
    (hf : f ∈ pool.entries) (hindex : e.1 = f.1) : e = f :=
  h.eq_of_mem he hf (mem_span e) (hindex ▸ mem_span f)

/-- An index leads to its entry, whatever is added later. -/
theorem Numbered.get? (h : pool.Numbered) (hgrows : pool.entries <+: after.entries)
    {entry : UInt16 × Constant} (hentry : entry ∈ pool.entries) :
    after.get? entry.1 = some entry.2 := by
  obtain ⟨later, hlater⟩ := hgrows
  unfold ConstantPool.get?
  rw [← hlater, List.find?_append]
  cases hfind : pool.entries.find? fun other => other.1 == entry.1 with
  | none =>
    have hnone := List.find?_eq_none.mp hfind entry hentry
    exact absurd (beq_self_eq_true entry.1) hnone
  | some found =>
    have hindex : found.1 = entry.1 := by simpa using List.find?_some hfind
    rw [h.eq_of_index (List.mem_of_find?_eq_some hfind) hentry hindex]
    rfl

/-- The indices of the entries are words, and the first of them is one. -/
theorem Numbered.bounds (h : pool.Numbered) (hroom : pool.taken ≤ maxIndex)
    {entry : UInt16 × Constant} (hentry : entry ∈ pool.entries) {index : Nat}
    (hindex : index ∈ span entry) : 1 ≤ index ∧ index ≤ maxIndex := by
  obtain ⟨hlow, hhigh⟩ := h.adjoining.bounds _ (List.mem_map_of_mem hentry)
  obtain ⟨hfirst, hlast⟩ := hindex
  have htaken : Span.total (pool.entries.map span) = pool.taken := rfl
  omega

/-- No entry has the second index of a wide one. -/
theorem Numbered.get?_second (h : pool.Numbered) (hroom : pool.taken ≤ maxIndex)
    {entry : UInt16 × Constant} (hentry : entry ∈ pool.entries) (hwide : entry.2.isWide = true) :
    pool.get? (entry.1 + 1) = none := by
  have hsecond : entry.1.toNat + 1 ∈ span entry := by
    unfold span
    rw [hwide]
    exact ⟨Nat.le_succ _, Nat.lt_succ_self _⟩
  have hword : (entry.1 + 1).toNat = entry.1.toNat + 1 := by
    have hle := (h.bounds hroom hentry hsecond).2
    unfold maxIndex at hle
    rw [UInt16.toNat_add, UInt16.toNat_one, Nat.mod_eq_of_lt (by omega)]
  unfold ConstantPool.get?
  rw [Option.map_eq_none_iff, List.find?_eq_none]
  intro other hother hindex
  have heq : other.1.toNat = entry.1.toNat + 1 := by
    rw [beq_iff_eq.mp hindex]
    exact hword
  have hsame := h.eq_of_mem hother hentry (mem_span other) (heq ▸ hsecond)
  rw [hsame] at heq
  omega

/-- As long as the entries need no more indices than there are, two calls are given one index if and
only if their constants are the same. The entries lie one behind the other from index one on, and no
two of them share an index; an index leads to a constant that is the same as the one it was given
for, whatever is added later; and the second index of a wide entry leads to nothing. -/
theorem indices_unique (constants : List Constant)
    (hroom : (ofConstants constants).taken ≤ maxIndex) :
    let pool := ofConstants constants
    (∀ one ∈ given {} constants, ∀ two ∈ given {} constants,
        one.1 = two.1 ↔ one.2.same two.2 = true)
      ∧ (pool.entries.Pairwise fun e f => (span e).Apart (span f))
      ∧ Span.Adjoining 1 (pool.entries.map span)
      ∧ (∀ entry ∈ pool.entries, ∀ index ∈ span entry, 1 ≤ index ∧ index ≤ maxIndex)
      ∧ (∀ later, ∀ call ∈ given {} constants, ∃ constant,
        (ofConstants (constants ++ later)).get? call.1 = some constant
          ∧ constant.same call.2 = true)
      ∧ ∀ entry ∈ pool.entries, entry.2.isWide = true → pool.get? (entry.1 + 1) = none := by
  intro pool
  have hindexed : pool.Indexed := Indexed.ofConstants constants
  have hnumbered : pool.Numbered := Numbered.ofConstants constants hroom
  have hapart := hnumbered.adjoining.apart
  rw [List.pairwise_map] at hapart
  refine ⟨?_, hapart, hnumbered.adjoining, ?_, ?_, ?_⟩
  · intro one hone two htwo
    obtain ⟨e, he, hindex, hsame⟩ := entry_of_given constants one hone
    obtain ⟨f, hf, hindex', hsame'⟩ := entry_of_given constants two htwo
    constructor
    · intro heq
      have hentry : e = f :=
        hnumbered.eq_of_index he hf (hindex.trans (heq.trans hindex'.symm))
      exact Constant.same_trans (Constant.same_symm hsame) (hentry ▸ hsame')
    · intro heq
      have hentry : e = f := hindexed.eq_of_same he hf
        (Constant.same_trans (Constant.same_trans hsame heq) (Constant.same_symm hsame'))
      exact hindex.symm.trans (hentry ▸ hindex')
  · intro entry hentry index hindex
    exact hnumbered.bounds hroom hentry hindex
  · intro later call hcall
    obtain ⟨e, he, hindex, hsame⟩ := entry_of_given constants call hcall
    exact ⟨e.2, hindex ▸ hnumbered.get? (entries_append constants later) he, hsame⟩
  · intro entry hentry hwide
    exact hnumbered.get?_second hroom hentry hwide

/-- Two patterns of not-a-number, both zeros, and a wide entry between narrow ones. -/
def mixedConstants : List Constant :=
  [.double ⟨0x7ff8000000000000⟩, .float ⟨0x80000000⟩, .double ⟨0xfff0000000000001⟩, .string "a",
    .float .zero, .long 9, .string "a", .int 70000]

theorem indices_unique_mixed :
    given {} mixedConstants
        = [1, 3, 1, 4, 3, 5, 4, 7].zip mixedConstants
      ∧ (ofConstants mixedConstants).taken ≤ maxIndex
      ∧ ∀ entry ∈ (ofConstants mixedConstants).entries, entry.2.isWide = true →
        (ofConstants mixedConstants).get? (entry.1 + 1) = none := by
  have hroom : (ofConstants mixedConstants).taken ≤ maxIndex := by decide
  exact ⟨by decide, hroom, (indices_unique mixedConstants hroom).2.2.2.2.2⟩

/-! ## The last index -/

/-- Wide constants, all different. -/
def longs (n : Nat) : List Constant := (List.range n).map fun k => .long (Int64.ofNat k)

theorem longs_succ (n : Nat) : longs (n + 1) = longs n ++ [.long (Int64.ofNat n)] := by
  unfold longs
  rw [List.range_succ, List.map_append]
  rfl

/-- A number that is not one of the first ones is a new constant. -/
theorem not_same_longs {n : Nat} (h : n ≤ maxIndex) :
    ∀ c ∈ longs n, c.same (.long (Int64.ofNat n)) = false := by
  intro c hc
  obtain ⟨k, hk, rfl⟩ := List.mem_map.mp hc
  have hlt := List.mem_range.mp hk
  unfold maxIndex at h
  have hne : Int64.ofNat k ≠ Int64.ofNat n := by
    intro heq
    have hint := congrArg Int64.toInt heq
    rw [Int64.toInt_ofNat_of_lt (by omega), Int64.toInt_ofNat_of_lt (by omega)] at hint
    omega
  exact beq_eq_false_iff_ne.mpr hne

theorem taken_longs {n : Nat} (h : n ≤ maxIndex) : (ofConstants (longs n)).taken = 2 * n
    ∧ (ofConstants (longs n)).entries.map (·.2) = longs n := by
  induction n with
  | zero => exact ⟨rfl, rfl⟩
  | succ n ih =>
    obtain ⟨htaken, hconstants⟩ := ih (by omega)
    have hnew := not_same_longs (n := n) (by omega)
    rw [← hconstants] at hnew
    obtain ⟨after, heq, hentries, _⟩ := (Indexed.ofConstants (longs n)).add_new hnew
    rw [longs_succ, ofConstants_concat, heq, taken_concat hentries, hentries, List.map_append,
      hconstants, htaken]
    exact ⟨rfl, rfl⟩

theorem add_longs {n : Nat} (h : n ≤ maxIndex) :
    ((ofConstants (longs n)).add (.long (Int64.ofNat n))).1
        = max (ofConstants (longs n)).nextIndex 1
      ∧ (ofConstants (longs (n + 1))).nextIndex = max (ofConstants (longs n)).nextIndex 1 + 2 := by
  have hnew := not_same_longs h
  rw [← (taken_longs h).2] at hnew
  obtain ⟨after, heq, _, hnext⟩ := (Indexed.ofConstants (longs n)).add_new hnew
  rw [longs_succ, ofConstants_concat, heq]
  exact ⟨rfl, hnext⟩

/-- Behind the last word, a constant is given the index of the first one. -/
theorem first_index_again :
    (1, .long 0) ∈ given {} (longs 32769) ∧ (1, .long 32768) ∈ given {} (longs 32769)
      ∧ (Constant.long 0).same (.long 32768) = false := by
  have htaken := (taken_longs (n := 32767) (by decide)).1
  have hnumbered := Numbered.ofConstants (longs 32767) (by rw [htaken]; decide)
  have hindex := hnumbered.next (by rw [htaken]; decide)
  have hlast : max (ofConstants (longs 32767)).nextIndex 1 = 65535 := by
    apply UInt16.toNat_inj.mp
    rw [hindex, htaken]
    rfl
  have hnext : (ofConstants (longs 32768)).nextIndex = 1 := by
    rw [(add_longs (n := 32767) (by decide)).2, hlast]
    rfl
  have hagain : ((ofConstants (longs 32768)).add (.long (Int64.ofNat 32768))).1 = 1 := by
    rw [(add_longs (n := 32768) (by decide)).1, hnext]
    rfl
  refine ⟨?_, ?_, by decide⟩
  · unfold longs
    rw [List.range_succ_eq_map]
    exact List.mem_cons_self
  · rw [longs_succ, given_concat, hagain]
    exact List.mem_append_right _ List.mem_cons_self

end ConstantPool

end ClassCompiler
