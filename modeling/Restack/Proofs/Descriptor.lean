import Mathlib
import Restack.Descriptor

namespace Restack

-- A descriptor has one spelling: what was read is written back as it was.

namespace Descriptor

variable {chars rest : List Char} {type : Descriptor} {name : String}

theorem scanName_text (found : scanName chars = some (name,rest)) : chars = name.toList ++ ';' :: rest := by
  have whole := List.takeWhile_append_dropWhile (p := fun c => decide (c ≠ ';')) (l := chars)
  have stops := List.head?_dropWhile_not (fun c => decide (c ≠ ';')) chars
  unfold scanName at found
  generalize chars.takeWhile (fun c => decide (c ≠ ';')) = before at found whole
  generalize chars.dropWhile (fun c => decide (c ≠ ';')) = after at found whole stops
  cases before with
  | nil => cases found
  | cons first others =>
    cases after with
    | nil => cases found
    | cons mark tail =>
      cases found
      have semicolon : mark = ';' := by simpa using stops
      rw [← whole,semicolon,String.toList_ofList]

theorem scan_text (found : scan chars = some (type,rest)) : chars = type.text.toList ++ rest := by
  induction chars generalizing type rest with
  | nil => cases found
  | cons c chars ih =>
    unfold scan at found
    split at found
    · rename_i isArray
      obtain ⟨⟨element,tail⟩,inner,same⟩ := Option.map_eq_some_iff.mp found
      cases same
      rw [isArray,ih inner]
      simp [text]
    · split at found
      · rename_i isObject
        obtain ⟨⟨name,tail⟩,inner,same⟩ := Option.map_eq_some_iff.mp found
        cases same
        rw [isObject,scanName_text inner]
        simp [text]
      · obtain ⟨primitive,inner,same⟩ := Option.map_eq_some_iff.mp found
        cases same
        unfold primitive? at inner
        split at inner <;> cases inner <;> rfl

theorem parse_text {s : String} (found : parse? s = some type) : type.text = s := by
  unfold parse? at found
  split at found
  · rename_i d scanned
    cases found
    have spelled := scan_text scanned
    rw [List.append_nil] at spelled
    exact String.toList_injective spelled.symm
  · cases found

theorem parse_again {s : String} (found : parse? s = some type) : parse? type.text = some type := by
  rwa [parse_text found]

end Descriptor

namespace MethodDescriptor

variable {chars rest : List Char} {signature : MethodDescriptor}

theorem scanArgs_text {fuel : Nat} {args : List Descriptor} (found : scanArgs fuel chars = (args,rest)) :
    chars = (String.join (args.map Descriptor.text)).toList ++ rest := by
  induction fuel generalizing chars args with
  | zero =>
    cases found
    simp
  | succ fuel ih =>
    unfold scanArgs at found
    split at found
    · cases found
      simp
    · rename_i d tail scanned
      cases found
      have further := @ih tail _ rfl
      rw [Descriptor.scan_text scanned]
      simpa using further

theorem parse_text {s : String} (found : parse? s = some signature) : signature.text = s := by
  unfold parse? at found
  split at found
  · rename_i chars opened
    split at found
    · rename_i args tail listed
      split at found
      · rename_i result last
        cases found
        apply String.toList_injective
        rw [opened,scanArgs_text listed,Descriptor.scan_text last]
        simp [text]
      · cases found
    · cases found
  · cases found

theorem parse_again {s : String} (found : parse? s = some signature) : parse? signature.text = some signature := by
  rwa [parse_text found]

end MethodDescriptor

end Restack
