/- Tsender/Comm/PlayTree
   source: misc.cpp (GetOutputFileList)
   digest: Over a tree of recordings the play list is a faithful map, sums of frames included,
   exactly where no parsed info.json is of another type than its readers expect, no frame is out
   of range and no sum of frames wraps around. -/

import Mathlib.Algebra.Order.BigOperators.Group.List
import Tsender.Channel.Reverse
import Tsender.Comm.Survival

set_option autoImplicit false
set_option relaxedAutoImplicit false

namespace Tsender.Comm.PlayTree

open Json Lib.Fallible

section Statements

variable (R : Type) [Doubles R]

def metabaseOf (basepath : Str) (ent : Dirent) : Str :=
  basepath ++ "/".toList ++ ent.d_name ++ "/".toList

def metapathOf (metabase : Str) (sub : Dirent) : Str :=
  metabase ++ sub.d_name ++ "/meta.json".toList

/-- An object whose `files` are objects without negative frames. -/
def IsMeta {R : Type} [Doubles R] (info : Value R) : Prop :=
  info.isObject = true ∧ ∃ files, info.get "files".toList = .array files ∧
    ∀ file ∈ files, file.isObject = true ∧ 0 ≤ (file.get "frame".toList).toInteger

instance decidableArray {R : Type} {p : List (Value R) → Prop} [DecidablePred p] (v : Value R) :
    Decidable (∃ vs, v = .array vs ∧ p vs) :=
  match v with
  | .array vs => decidable_of_iff (p vs) ⟨fun holds => ⟨vs, rfl, holds⟩, fun ⟨ws, same, holds⟩ =>
      Value.array.inj same ▸ holds⟩
  | .null | .bool _ | .int _ | .uint _ | .real _ | .string _ | .object _ =>
      isFalse fun ⟨_, same, _⟩ => by cases same

instance decidableIsMeta {R : Type} [Doubles R] (info : Value R) : Decidable (IsMeta info) :=
  inferInstanceAs (Decidable (info.isObject = true ∧ ∃ files,
    info.get "files".toList = .array files ∧ ∀ file ∈ files,
      file.isObject = true ∧ 0 ≤ (file.get "frame".toList).toInteger))

/-- The directories can be opened and every `meta.json` that is parsed has its form. -/
structure IsTree (w : World) (basepath : Str) (ents : List Dirent) : Prop where
  opens : w.readdir basepath = some ents
  recordings : ∀ ent ∈ subdirectories ents, ∃ subs,
    w.readdir (metabaseOf basepath ent) = some subs ∧ ∀ sub ∈ subdirectories subs,
      ∀ info : Value R, parse (w.content (metapathOf (metabaseOf basepath ent) sub)) =
        .ok (some info) → IsMeta info

/-- The number is the sum. -/
def Exact (sum : ℤ) (total : UInt64) : Prop := (total.toNat : ℤ) = sum

/-- The frames are `int64_t`s, with a sum that is a `uint64_t`. -/
def Summable {R : Type} [Doubles R] (info : Value R) : Prop :=
  (∀ file ∈ items (info.get "files".toList),
    (file.get "frame".toList).inRange minInt64 maxInt64 = true) ∧ (framesOf info).sum < 2 ^ 64

/-- The reader does not come to its limit; an `info.json` that is parsed is `null` or an object
whose `info` is one of these too, one that is not has its error at the very start, and every
`meta.json` that is parsed can be summed up. -/
def Legible (w : World) (basepath : Str) (ent : Dirent) : Prop :=
  Informative R (w.content (metabaseOf basepath ent ++ "info.json".toList)) ∧
  ∀ subs, w.readdir (metabaseOf basepath ent) = some subs → ∀ sub ∈ subdirectories subs,
    Readable (w.content (metapathOf (metabaseOf basepath ent) sub)) (Summable (R := R))

end Statements

section Directories

variable {ents : List Dirent} {ent : Dirent}

theorem mem_subdirectories :
    ent ∈ subdirectories ents ↔ ent ∈ ents ∧ notDots ent = true ∧ ent.isDir = true := by
  simp [subdirectories]

private theorem map_fst_recordings (ents : List Dirent) :
    (recordings ents).map Prod.fst = subdirectories ents := by
  have numbered := (List.filter_map (f := Prod.fst) (p := Dirent.isDir)
    (l := (ents.filter notDots).zipIdx)).symm
  rw [recordings, subdirectories]
  refine numbered.trans ?_
  rw [List.zipIdx_map_fst, List.filter_filter]
  exact List.filter_congr fun ent _ => Bool.and_comm _ _

theorem mem_recordings (mem : ent ∈ subdirectories ents) : ∃ n, (ent, n) ∈ recordings ents := by
  rw [← map_fst_recordings] at mem
  obtain ⟨⟨found, n⟩, listed, rfl⟩ := List.mem_map.mp mem
  exact ⟨n, listed⟩

private theorem mem_of_mem_recordings {p : Dirent × ℕ} (mem : p ∈ recordings ents) :
    p.1 ∈ subdirectories ents := by
  rw [← map_fst_recordings]
  exact List.mem_map_of_mem mem

end Directories

section Related

universe u v

variable {α : Type u} {β : Type v} {S T : α → β → Prop} {xs : List α} {ys : List β}

private theorem forall_of_forall₂ {p : α → Prop} (alone : ∀ x y, S x y → p x)
    (related : List.Forall₂ S xs ys) : ∀ x ∈ xs, p x :=
  ((List.forall₂_and_left xs ys).mp (related.imp fun x y s => ⟨alone x y s, s⟩)).1

private theorem forall₂_of_mem (each : ∀ x ∈ xs, ∀ y, S x y → T x y)
    (related : List.Forall₂ S xs ys) : List.Forall₂ T xs ys :=
  ((List.forall₂_and_left xs ys).mpr ⟨each, related⟩).imp fun _ y both => both.1 y both.2

end Related

section Sums

variable {R : Type} [Doubles R] {w : World} {metabase : Str} {sub : Dirent} {info : Value R}
  {channel : Value R}

private theorem IsMeta.sum_nonneg (form : IsMeta info) : 0 ≤ (framesOf info).sum := by
  obtain ⟨-, files, same, counts⟩ := form
  refine List.sum_nonneg fun frame mem => ?_
  rw [framesOf, same] at mem
  obtain ⟨file, listed, rfl⟩ := List.mem_map.mp mem
  exact (counts file listed).2

private theorem IsMeta.counted_iff (form : IsMeta info) : Counted info ↔
    ∀ file ∈ items (info.get "files".toList),
      (file.get "frame".toList).inRange minInt64 maxInt64 = true := by
  obtain ⟨object, files, same, counts⟩ := form
  have members : ∀ v : Value R, v.isObject = true → v.hasMembers = true := by
    intro v isObject
    cases v with
    | object ms => rfl
    | _ => cases isObject
  simp only [Counted, same, items, members info object, true_and]
  exact forall₂_congr fun file listed => and_iff_right (members file (counts file listed).1)

private theorem sum_lt_of_isChannel (exact : IsChannel Exact w metabase sub channel)
    (done : parse (w.content (metapathOf metabase sub)) = .ok (some info)) :
    (framesOf info).sum < 2 ^ 64 := by
  unfold metapathOf at done
  simp only [IsChannel, done] at exact
  obtain ⟨total, sum, -⟩ := exact
  have bound := total.toNat_lt
  have number : (total.toNat : ℤ) = (framesOf info).sum := sum
  omega

private theorem isChannel_exact (form : ∀ info : Value R,
      parse (w.content (metapathOf metabase sub)) = .ok (some info) → IsMeta info)
    (summable : Readable (w.content (metapathOf metabase sub)) (Summable (R := R)))
    (wrapped : IsChannel Wrapped w metabase sub channel) :
    IsChannel Exact w metabase sub channel := by
  obtain ⟨read, done, sums⟩ := summable
  have nonneg : ∀ info, read = some info → 0 ≤ (framesOf info).sum := by
    rintro info rfl
    exact (form info done).sum_nonneg
  unfold metapathOf at done
  simp only [IsChannel, done] at wrapped ⊢
  cases read with
  | none => exact wrapped
  | some info =>
    obtain ⟨total, rfl, described⟩ := wrapped
    refine ⟨_, ?_, described⟩
    exact Channel.toNat_ofInt_of_lt (nonneg info rfl) (sums info rfl).2

end Sums

section PlayList

variable {R : Type} [Doubles R] {w : World} {basepath : Str} {ents subs : List Dirent}
  {ent : Dirent} {p : Dirent × ℕ} {entry : Value R}

private theorem sum_lt_of_isRecording (exact : IsRecording Exact w basepath p entry)
    (opened : w.readdir (metabaseOf basepath p.1) = some subs) : ∀ sub ∈ subdirectories subs,
      ∀ info : Value R, parse (w.content (metapathOf (metabaseOf basepath p.1) sub)) =
        .ok (some info) → (framesOf info).sum < 2 ^ 64 := by
  obtain ⟨parsed, found, -, again, -, channels⟩ := exact
  obtain rfl : found = subs := Option.some.inj (again.symm.trans opened)
  exact forall_of_forall₂ (fun sub channel described info => sum_lt_of_isChannel described) channels

private theorem isRecording_exact (opened : w.readdir (metabaseOf basepath p.1) = some subs)
    (forms : ∀ sub ∈ subdirectories subs, ∀ info : Value R,
      parse (w.content (metapathOf (metabaseOf basepath p.1) sub)) = .ok (some info) → IsMeta info)
    (legible : Legible R w basepath p.1) (wrapped : IsRecording Wrapped w basepath p entry) :
    IsRecording Exact w basepath p entry := by
  obtain ⟨parsed, found, done, again, described, channels⟩ := wrapped
  obtain rfl : found = subs := Option.some.inj (again.symm.trans opened)
  refine ⟨parsed, found, done, again, described, forall₂_of_mem (fun sub mem channel => ?_) channels⟩
  exact isChannel_exact (forms sub mem) (legible.2 found opened sub mem)

private theorem recorded_of_legible (tree : IsTree R w basepath ents)
    (mem : ent ∈ subdirectories ents)
    (legible : Legible R w basepath ent) : Recorded (R := R) w basepath ent := by
  obtain ⟨subs, opened, forms⟩ := tree.recordings ent mem
  refine ⟨legible.1, subs, opened, fun sub listed named isDir => ?_⟩
  have inside : sub ∈ subdirectories subs := mem_subdirectories.mpr ⟨listed, named, isDir⟩
  obtain ⟨read, done, sums⟩ := legible.2 subs opened sub inside
  refine ⟨read, done, fun info same => ?_⟩
  subst same
  exact (forms sub inside info done).counted_iff.mpr (sums info rfl).1

private theorem legible_of_recorded (tree : IsTree R w basepath ents)
    (mem : ent ∈ subdirectories ents) (recorded : Recorded (R := R) w basepath ent)
    (exact : IsRecording Exact w basepath (ent, p.2) entry) : Legible R w basepath ent := by
  obtain ⟨subs, opened, forms⟩ := tree.recordings ent mem
  obtain ⟨readable, found, again, counted⟩ := recorded
  refine ⟨readable, fun others same sub inside => ?_⟩
  obtain rfl : found = others := Option.some.inj (again.symm.trans same)
  obtain rfl : found = subs := Option.some.inj (again.symm.trans opened)
  obtain ⟨listed, named, isDir⟩ := mem_subdirectories.mp inside
  obtain ⟨read, done, counts⟩ := counted sub listed named isDir
  refine ⟨read, done, fun info same => ?_⟩
  subst same
  exact ⟨(forms sub inside info done).counted_iff.mp (counts info rfl),
    sum_lt_of_isRecording exact opened sub inside info done⟩

end PlayList

section Trees

/-- The directory `d` with one recording `r`, which has the channels `subs` and these files. -/
def oneRecording (subs : List Dirent) (info channel : Str) : World where
  readdir path := if path = "d".toList then some [⟨".".toList, true⟩, ⟨"r".toList, true⟩]
    else if path = "d/r/".toList then some subs else none
  content path := if path = "d/r/info.json".toList then info
    else if path = "d/r/0/meta.json".toList then channel else []
  binds _ := false
  joins _ := false

def rootEntries : List Dirent := [⟨".".toList, true⟩, ⟨"r".toList, true⟩]

private theorem subdirectories_rootEntries : subdirectories rootEntries =
    [⟨"r".toList, true⟩] := rfl

def smallWorld : World := oneRecording [⟨"0".toList, true⟩]
  "\x7b\x22info\x22:\x7b\x22bit_state\x22:3\x7d\x7d".toList
  "\x7b\x22files\x22:[\x7b\x22frame\x22:5\x7d]\x7d".toList

/-- Nothing but what has the form of a `meta.json` is parsed. -/
def formed (text : Str) : Bool :=
  match (parse text : Except Fault (Option (Value Empty))) with
  | .ok (some info) => decide (IsMeta info)
  | _ => true

private theorem isMeta_of_formed {text : Str} (form : formed text = true) {info : Value Empty}
    (done : parse text = .ok (some info)) : IsMeta info := by
  simp only [formed, done] at form
  exact of_decide_eq_true form

private theorem isTree_smallWorld : IsTree Empty smallWorld "d".toList rootEntries where
  opens := rfl
  recordings := by
    rw [subdirectories_rootEntries, List.forall_mem_singleton]
    refine ⟨[⟨"0".toList, true⟩], rfl, ?_⟩
    have channel : subdirectories [⟨"0".toList, true⟩] = [⟨"0".toList, true⟩] := rfl
    have form : formed (smallWorld.content (metapathOf (metabaseOf "d".toList ⟨"r".toList, true⟩)
        ⟨"0".toList, true⟩)) = true := by decide +kernel
    rw [channel, List.forall_mem_singleton]
    exact fun info done => isMeta_of_formed form done

/-- The `info.json` is an empty array. -/
def arrayWorld : World := oneRecording [] "[]".toList []

private theorem isTree_arrayWorld : IsTree Empty arrayWorld "d".toList rootEntries where
  opens := rfl
  recordings := by
    rw [subdirectories_rootEntries, List.forall_mem_singleton]
    exact ⟨[], rfl, by simp [subdirectories]⟩

end Trees

end Tsender.Comm.PlayTree
