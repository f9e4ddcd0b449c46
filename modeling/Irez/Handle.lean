/-
  File:      Irez/Handle.lean
  Subject:   Entity handles (`entity_id`, service.cpp 112-124) and the local keys the
             adapter writes (adapter.cpp): what a handle and a key determine.

  * `entityId` -- `irez:<hash16>:llvm:<kind>:<rest>`; `entityId_eq`: for a key with a
    colon the kind and the rest are the key again, so `entityId_inj`: two artifacts
    with hashes of 16 digits give one handle only to one key;
  * `ScopedTo key` -- the keys of the interior of the function `key`: arguments,
    blocks, instructions and constants; `ScopedTo.inj`: no key is in the interior of
    two functions.
-/
import Irez.Basis.Text
import Irez.Schema

open Irez.Basis

namespace Irez

/-! ## 1. Handles -/

/-- `content_sha256.substr(0, 16)`. -/
def shortHash (sha : String) : String := String.ofList (sha.toList.take 16)

/-- `entity_id`. Every entry of the source's `kinds` table maps a head to itself, and a
    head that is not in the table is kept, so the kind is the head. -/
def entityId (artifact : Artifact) (localKey : String) : String :=
  "irez:" ++ shortHash artifact.contentSha256 ++ ":llvm:" ++ headField ':' localKey ++ ":" ++
    tailFields ':' localKey

theorem entityId_eq {a : Artifact} {k : String} (hk : ':' ∈ k.toList) :
    entityId a k = "irez:" ++ shortHash a.contentSha256 ++ ":llvm:" ++ k := by
  have h := headField_tailFields (c := ':') (s := ":") rfl hk
  calc entityId a k
      = "irez:" ++ shortHash a.contentSha256 ++ ":llvm:" ++
          (headField ':' k ++ ":" ++ tailFields ':' k) := by
        simp only [entityId, String.append_assoc]
    _ = "irez:" ++ shortHash a.contentSha256 ++ ":llvm:" ++ k := by rw [h]

/-- A handle determines the short hash and the text after it. -/
theorem handle_inj {s s' k k' : String} (hs : s.length = s'.length)
    (h : "irez:" ++ s ++ ":llvm:" ++ k = "irez:" ++ s' ++ ":llvm:" ++ k') : s = s' ∧ k = k' := by
  have h1 : s ++ (":llvm:" ++ k) = s' ++ (":llvm:" ++ k') := by
    refine (String.append_right_inj "irez:").mp ?_
    simpa only [String.append_assoc] using h
  obtain ⟨h2, h3⟩ := append_inj_of_length hs h1
  exact ⟨h2, (String.append_right_inj ":llvm:").mp h3⟩

/-- In one artifact a handle determines the key. -/
theorem entityId_right_inj {a : Artifact} {k k' : String} (hk : ':' ∈ k.toList)
    (hk' : ':' ∈ k'.toList) (h : entityId a k = entityId a k') : k = k' := by
  rw [entityId_eq hk, entityId_eq hk'] at h
  exact (String.append_right_inj _).mp h

theorem entityId_inj {a b : Artifact} {k k' : String} (ha : (shortHash a.contentSha256).length = 16)
    (hb : (shortHash b.contentSha256).length = 16) (hk : ':' ∈ k.toList) (hk' : ':' ∈ k'.toList)
    (h : entityId a k = entityId b k') :
    shortHash a.contentSha256 = shortHash b.contentSha256 ∧ k = k' := by
  rw [entityId_eq hk, entityId_eq hk'] at h
  exact handle_inj (ha.trans hb.symm) h

/-! ## 2. Local keys -/

/-- `"function:" + key`. -/
def functionLocal (key : String) : String := "function:" ++ key

/-- The heads of the keys inside a function. -/
def interiorHeads : List String := ["arg", "block", "inst", "constant"]

/-- The keys of the interior of the function `key`. -/
def ScopedTo (key localKey : String) : Prop :=
  ∃ head ∈ interiorHeads, ∃ rest, localKey = head ++ ":" ++ key ++ ":" ++ rest

/-- The keys of global variables, `global:g<N>`. -/
def GlobalKey (localKey : String) : Prop := ∃ n : Nat, localKey = "global:g" ++ toString n

theorem colon_not_mem_of_interior {head : String} (h : head ∈ interiorHeads) : ':' ∉ head.toList := by
  revert head
  decide

theorem colon_mem_functionLocal (key : String) : ':' ∈ (functionLocal key).toList := by
  simp [functionLocal]

theorem ScopedTo.colon_mem {key k : String} (h : ScopedTo key k) : ':' ∈ k.toList := by
  obtain ⟨head, _, rest, rfl⟩ := h
  simp

theorem GlobalKey.colon_mem {k : String} (h : GlobalKey k) : ':' ∈ k.toList := by
  obtain ⟨n, rfl⟩ := h
  simp

theorem headField_functionLocal (key : String) : headField ':' (functionLocal key) = "function" := by
  have h := headField_append (c := ':') (s := ":") rfl (a := "function") (by decide) key
  exact h

theorem tailFields_functionLocal (key : String) : tailFields ':' (functionLocal key) = key := by
  have h := tailFields_append (c := ':') (s := ":") rfl (a := "function") (by decide) key
  exact h

theorem functionLocal_inj {key key' : String} (h : functionLocal key = functionLocal key') :
    key = key' :=
  (String.append_right_inj "function:").mp h

theorem ScopedTo.head_mem {key k : String} (h : ScopedTo key k) : headField ':' k ∈ interiorHeads := by
  obtain ⟨head, hh, rest, rfl⟩ := h
  have e : head ++ ":" ++ key ++ ":" ++ rest = head ++ ":" ++ (key ++ ":" ++ rest) := by
    simp only [String.append_assoc]
  rw [e, headField_append rfl (colon_not_mem_of_interior hh)]
  exact hh

theorem GlobalKey.head_eq {k : String} (h : GlobalKey k) : headField ':' k = "global" := by
  obtain ⟨n, rfl⟩ := h
  have e : "global:g" ++ toString n = "global" ++ ":" ++ ("g" ++ toString n) := by
    rw [← String.append_assoc]
    rfl
  rw [e]
  exact headField_append rfl (by decide) _

/-- **No key is in the interior of two functions.** -/
theorem ScopedTo.inj {key key' k : String} (hc : ':' ∉ key.toList) (hc' : ':' ∉ key'.toList)
    (h : ScopedTo key k) (h' : ScopedTo key' k) : key = key' := by
  obtain ⟨head, hh, rest, rfl⟩ := h
  obtain ⟨head', hh', rest', e⟩ := h'
  have e1 : head ++ ":" ++ (key ++ ":" ++ rest) = head' ++ ":" ++ (key' ++ ":" ++ rest') := by
    simpa only [String.append_assoc] using e
  obtain ⟨_, e2⟩ := field_inj rfl (colon_not_mem_of_interior hh) (colon_not_mem_of_interior hh') e1
  exact (field_inj rfl hc hc' e2).1

theorem ScopedTo.not_global {key k : String} (h : ScopedTo key k) : ¬ GlobalKey k := by
  intro hg
  have hm := h.head_mem
  rw [hg.head_eq] at hm
  revert hm
  decide

theorem ScopedTo.ne_functionLocal {key key' k : String} (h : ScopedTo key k) :
    k ≠ functionLocal key' := by
  rintro rfl
  have hm := h.head_mem
  rw [headField_functionLocal] at hm
  revert hm
  decide

end Irez
