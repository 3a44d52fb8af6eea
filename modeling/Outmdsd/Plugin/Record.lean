import Mathlib.Data.List.Basic
import Mathlib.Data.List.Nodup
import Mathlib.Data.Int.Notation

/-!
# Records of the Ruby plugin

A Ruby string is the list of its characters. A record is a hash: pairs of a key and a value in
insertion order, with distinct keys; assigning to a key that is present keeps its place
(`Record.set`). Of a value the plugin uses its class name, the text of `to_s` and, for strings,
times and hashes, what they hold; `to_json` of a hash raises an exception if the hash holds a value
that JSON does not have, such as `NaN`.
-/

namespace Outmdsd.Plugin

abbrev RString := List Char

/-- A Ruby class name: a constant path, which holds no comma. -/
structure ClassName where
  name : RString
  comma_notMem : ',' ∉ name

/-- A time, as seconds and nanoseconds. -/
structure RTime where
  sec : ℤ
  nsec : ℕ
  deriving DecidableEq

/-- Ruby values. Structured values and floats carry the texts the plugin asks them for. -/
inductive RValue
  | nil
  | true
  | false
  | integer (n : ℤ)
  | float (to_s : RString)
  | string (s : RString)
  | array (to_s : RString)
  /-- `to_json` is `none` for a hash it raises an exception for. -/
  | hash (to_s : RString) (to_json : Option RString)
  | range (to_s : RString)
  | time (t : RTime)
  /-- An object of another class. -/
  | other (cls : ClassName) (to_s : RString)

/-- `value.class.name` -/
def RValue.className : RValue → ClassName
  | .nil => ⟨"NilClass".toList, by decide⟩
  | .true => ⟨"TrueClass".toList, by decide⟩
  | .false => ⟨"FalseClass".toList, by decide⟩
  | .integer _ => ⟨"Integer".toList, by decide⟩
  | .float _ => ⟨"Float".toList, by decide⟩
  | .string _ => ⟨"String".toList, by decide⟩
  | .array _ => ⟨"Array".toList, by decide⟩
  | .hash _ _ => ⟨"Hash".toList, by decide⟩
  | .range _ => ⟨"Range".toList, by decide⟩
  | .time _ => ⟨"Time".toList, by decide⟩
  | .other cls _ => cls

/-- The value is a hash that is written with `to_json`, which raises an exception for it. -/
def RValue.raises (hashtojson : Bool) : RValue → Bool
  | .hash _ Option.none => hashtojson
  | _ => Bool.false

/-- A record. -/
structure Record where
  fields : List (RString × RValue)
  nodup : (fields.map Prod.fst).Nodup

namespace Record

/-- The keys of a record, in order. -/
def keys (r : Record) : List RString := r.fields.map Prod.fst

/-- The (key, class name) pairs of a record, in order. -/
def shape (r : Record) : List (RString × RString) :=
  r.fields.map fun f => (f.1, f.2.className.name)

/-- The fields of `record[key] = value`. -/
def setFields (key : RString) (value : RValue) : List (RString × RValue) → List (RString × RValue)
  | [] => [(key, value)]
  | f :: fs => if f.1 = key then (key, value) :: fs else f :: setFields key value fs

theorem map_fst_setFields (key : RString) (value : RValue) (fs : List (RString × RValue)) :
    (setFields key value fs).map Prod.fst =
      if key ∈ fs.map Prod.fst then fs.map Prod.fst else fs.map Prod.fst ++ [key] := by
  induction fs with
  | nil => simp [setFields]
  | cons f fs ih =>
    rw [setFields]
    by_cases hf : f.1 = key
    · simp [hf]
    · rw [if_neg hf, List.map_cons, ih]
      by_cases hk : key ∈ fs.map Prod.fst
      · rw [if_pos hk, if_pos (by simp only [List.map_cons, List.mem_cons, hk, or_true]),
          List.map_cons]
      · have hn : key ∉ (f :: fs).map Prod.fst := by
          simp only [List.map_cons, List.mem_cons, not_or]
          exact ⟨fun e => hf e.symm, hk⟩
        rw [if_neg hk, if_neg hn, List.map_cons, List.cons_append]

/-- `record[key] = value` -/
def set (r : Record) (key : RString) (value : RValue) : Record where
  fields := setFields key value r.fields
  nodup := by
    rw [map_fst_setFields]
    split
    · exact r.nodup
    · rename_i h
      exact List.nodup_append.mpr ⟨r.nodup, by simp, fun a ha b hb e => by
        simp only [List.mem_singleton] at hb
        exact h (hb ▸ e ▸ ha)⟩

theorem keys_set (r : Record) (key : RString) (value : RValue) :
    (r.set key value).keys = if key ∈ r.keys then r.keys else r.keys ++ [key] :=
  map_fst_setFields key value r.fields

theorem mem_setFields (key : RString) (value : RValue) (fs : List (RString × RValue)) :
    (key, value) ∈ setFields key value fs := by
  induction fs with
  | nil => simp [setFields]
  | cons f fs ih =>
    rw [setFields]
    split
    · simp
    · exact List.mem_cons_of_mem _ ih

/-- The assigned key holds the assigned value. -/
theorem eq_of_mem_set {r : Record} {key : RString} {value v : RValue}
    (h : (key, v) ∈ (r.set key value).fields) : v = value :=
  congrArg Prod.snd (List.inj_on_of_nodup_map (r.set key value).nodup h
    (mem_setFields key value r.fields) rfl)

theorem set_fields_ne_nil (r : Record) (key : RString) (value : RValue) :
    (r.set key value).fields ≠ [] :=
  List.ne_nil_of_mem (mem_setFields key value r.fields)

end Record

end Outmdsd.Plugin
