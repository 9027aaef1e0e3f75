import Mathlib.Data.List.Basic
import Mathlib.Data.Nat.Basic
import ObjectStorage.Transaction.LockManager

/-!
The number of the component of a container is computed in three places: from the name of a lock,
from the path of the container, and by the ring from the hash of the container.
-/

namespace ObjectStorage.Routing

open Transaction (getComponentName hexDigit? hexDigits hexBody readHex isStreamSpace beforeLastSlash
  afterLastSlash)

def isHexDigit (c : Char) : Bool := (hexDigit? c).isSome

def takeSign : List Char → Bool × List Char
  | '-' :: cs => (true, cs)
  | '+' :: cs => (false, cs)
  | cs => (false, cs)

def dropHexPrefix : List Char → List Char
  | '0' :: 'x' :: cs => cs
  | '0' :: 'X' :: cs => cs
  | cs => cs

/-- `int(s, 16)`, which raises `ValueError` for anything but digits. -/
def pythonInt16 (cs : List Char) : Option Int :=
  let cs := ((cs.dropWhile isStreamSpace).reverse.dropWhile isStreamSpace).reverse
  let (negative, cs) := takeSign cs
  let digits := dropHexPrefix cs
  if digits ≠ [] ∧ digits.all isHexDigit then
    some (if negative then -(hexDigits 0 digits : Int) else hexDigits 0 digits)
  else none

/-- `rfind('/')`, which is -1 when there is no slash. -/
def rfindSlash (cs : List Char) : Int :=
  if '/' ∈ cs then (beforeLastSlash cs).length else -1

def numberOfComponents : Nat := 512

namespace MemoryManager

/-- The component of a container, from the last part of its path. -/
def getComponentName (osdConfig : Bool) (path : String) : Int :=
  let cs := path.toList
  let index := rfindSlash cs
  if index > 0 then
    let accConHash := cs.drop (index + 1).toNat
    let compNumber := readHex (accConHash.take 8)
    if osdConfig then 1 else (compNumber % numberOfComponents : Nat)
  else -1

end MemoryManager

namespace Calculation

/-- `int(key[:8], 16) % shift_param + 1`, if the key starts with a number. -/
def evaluate (key : String) (shiftParam : Int) : Option Int :=
  (pythonInt16 (key.toList.take 8)).map fun n => n.fmod shiftParam + 1

end Calculation

/-- What `md5(..).hexdigest()` returns of the bytes of a string. -/
def IsHexDigest (s : String) : Prop :=
  s.toList.length = 32 ∧ ∀ c ∈ s.toList, '0' ≤ c ∧ c ≤ '9' ∨ 'a' ≤ c ∧ c ≤ 'f'

instance : DecidablePred IsHexDigest := fun s =>
  have : Decidable (∀ c ∈ s.toList, '0' ≤ c ∧ c ≤ '9' ∨ 'a' ≤ c ∧ c ≤ 'f') :=
    List.decidableBAll _ s.toList
  inferInstanceAs (Decidable (s.toList.length = 32 ∧
    ∀ c ∈ s.toList, '0' ≤ c ∧ c ≤ '9' ∨ 'a' ≤ c ∧ c ≤ 'f'))

section

variable (md5 : String → String) (hashPathPrefix hashPathSuffix : String)

/-- `hash_path`; a container or object that is not given is empty. An object without a container
raises `ValueError`. -/
def hashPath (account container object : String) : Option String :=
  if object ≠ "" ∧ container = "" then none
  else
    let paths := [account] ++ (if container ≠ "" then [container] else []) ++
      (if object ≠ "" then [object] else [])
    some (md5 (hashPathPrefix ++ "/" ++ "/".intercalate paths ++ hashPathSuffix))

/-- The name of a lock: `hash(account)/hash(account,container)/hash(account,container,object)`. -/
def lockName (account container object : String) : Option String := do
  let accHash ← hashPath md5 hashPathPrefix hashPathSuffix account "" ""
  let conHash ← hashPath md5 hashPathPrefix hashPathSuffix account container ""
  let objHash ← hashPath md5 hashPathPrefix hashPathSuffix account container object
  some (accHash ++ "/" ++ conHash ++ "/" ++ objHash)

/-- `create_path` of the container operations. -/
def createPath (fsBase filesystem accDir contDir account container : String) : Option String := do
  let accPath ← hashPath md5 hashPathPrefix hashPathSuffix account "" ""
  let conPath ← hashPath md5 hashPathPrefix hashPathSuffix account container ""
  some (fsBase ++ "/" ++ filesystem ++ "/" ++ accDir ++ "/" ++ accPath ++ "/" ++ contDir ++ "/" ++
    conPath)

end

section

variable {cs ds : List Char}

theorem takeWhile_reverse (h : '/' ∉ ds) (cs : List Char) :
    (cs ++ '/' :: ds).reverse.takeWhile (· != '/') = ds.reverse ∧
      (cs ++ '/' :: ds).reverse.dropWhile (· != '/') = '/' :: cs.reverse := by
  have hall : ∀ c ∈ ds.reverse, (c != '/') = true := fun c hc =>
    bne_iff_ne.mpr fun heq => h (heq ▸ List.mem_reverse.mp hc)
  have hsplit : (cs ++ '/' :: ds).reverse = ds.reverse ++ '/' :: cs.reverse := by
    rw [List.reverse_append, List.reverse_cons, List.append_assoc, List.singleton_append]
  rw [hsplit, List.takeWhile_append_of_pos hall, List.dropWhile_append_of_pos hall]
  exact ⟨List.append_nil _, rfl⟩

theorem beforeLastSlash_append (h : '/' ∉ ds) : beforeLastSlash (cs ++ '/' :: ds) = cs := by
  rw [beforeLastSlash, if_pos (by simp), (takeWhile_reverse h cs).2, List.drop_succ_cons,
    List.drop_zero, List.reverse_reverse]

theorem afterLastSlash_append (h : '/' ∉ ds) : afterLastSlash (cs ++ '/' :: ds) = ds := by
  rw [afterLastSlash, (takeWhile_reverse h cs).1, List.reverse_reverse]

theorem rfindSlash_append (h : '/' ∉ ds) : rfindSlash (cs ++ '/' :: ds) = cs.length := by
  rw [rfindSlash, if_pos (by simp), beforeLastSlash_append h]

theorem drop_append_slash (cs ds : List Char) :
    (cs ++ '/' :: ds).drop ((cs.length : Int) + 1).toNat = ds := by
  have hindex : ((cs.length : Int) + 1).toNat = cs.length + 1 := by omega
  rw [hindex, List.drop_append]
  simp

theorem not_isStreamSpace_of_isHexDigit {c : Char} (h : isHexDigit c = true) :
    isStreamSpace c = false := by
  rw [isHexDigit, hexDigit?] at h
  simp only [Char.le_def, UInt32.le_iff_toNat_le] at h
  have hspace : isStreamSpace c = true → c.val.toNat = 32 ∨ 9 ≤ c.val.toNat ∧ c.val.toNat ≤ 13 := by
    rw [isStreamSpace, Bool.or_eq_true, beq_iff_eq, Bool.and_eq_true, decide_eq_true_eq,
      decide_eq_true_eq]
    rintro (rfl | hrange)
    · exact .inl rfl
    · exact .inr hrange
  rw [← Bool.not_eq_true]
  intro hin
  have hin := hspace hin
  split_ifs at h with h₁ h₂ h₃
  · have hlow : 48 ≤ c.val.toNat := h₁.1
    omega
  · have hlow : 97 ≤ c.val.toNat := h₂.1
    omega
  · have hlow : 65 ≤ c.val.toNat := h₃.1
    omega
  · cases h

theorem ne_of_isHexDigit {c d : Char} (h : isHexDigit c = true) (hd : isHexDigit d = false) :
    c ≠ d := by
  rintro rfl
  rw [h] at hd
  cases hd

theorem dropWhile_isStreamSpace (h : ∀ c ∈ ds, isHexDigit c = true) :
    ds.dropWhile isStreamSpace = ds := by
  cases ds with
  | nil => rfl
  | cons c ds =>
      rw [List.dropWhile_cons, not_isStreamSpace_of_isHexDigit (h c List.mem_cons_self)]
      rfl

theorem takeSign_digits (h : ∀ c ∈ ds, isHexDigit c = true) : takeSign ds = (false, ds) := by
  unfold takeSign
  split
  · exact absurd rfl (ne_of_isHexDigit (h '-' List.mem_cons_self) (by decide))
  · exact absurd rfl (ne_of_isHexDigit (h '+' List.mem_cons_self) (by decide))
  · rfl

theorem dropHexPrefix_digits (h : ∀ c ∈ ds, isHexDigit c = true) : dropHexPrefix ds = ds := by
  unfold dropHexPrefix
  split
  · exact absurd rfl (ne_of_isHexDigit (h 'x' (by simp)) (by decide))
  · exact absurd rfl (ne_of_isHexDigit (h 'X' (by simp)) (by decide))
  · rfl

theorem hexBody_digits (h : ∀ c ∈ ds, isHexDigit c = true) : hexBody ds = hexDigits 0 ds := by
  unfold hexBody
  split
  · exact absurd rfl (ne_of_isHexDigit (h 'x' (by simp)) (by decide))
  · exact absurd rfl (ne_of_isHexDigit (h 'X' (by simp)) (by decide))
  · rfl

theorem readHex_digits (h : ∀ c ∈ ds, isHexDigit c = true) : readHex ds = hexDigits 0 ds := by
  unfold readHex
  rw [dropWhile_isStreamSpace h]
  split
  · exact absurd rfl (ne_of_isHexDigit (h '-' List.mem_cons_self) (by decide))
  · exact absurd rfl (ne_of_isHexDigit (h '+' List.mem_cons_self) (by decide))
  · exact hexBody_digits h

theorem pythonInt16_digits (h : ∀ c ∈ ds, isHexDigit c = true) (hne : ds ≠ []) :
    pythonInt16 ds = some (hexDigits 0 ds : Int) := by
  have hrev : ∀ c ∈ ds.reverse, isHexDigit c = true := fun c hc => h c (List.mem_reverse.mp hc)
  have hall : ds.all isHexDigit = true := List.all_eq_true.mpr h
  simp only [pythonInt16, dropWhile_isStreamSpace h, dropWhile_isStreamSpace hrev,
    List.reverse_reverse, takeSign_digits h, dropHexPrefix_digits h]
  rw [if_pos ⟨hne, hall⟩]
  rfl

end

section

variable {hash : String}

theorem IsHexDigest.isHexDigit (h : IsHexDigest hash) : ∀ c ∈ hash.toList, isHexDigit c = true := by
  intro c hc
  rw [Routing.isHexDigit, hexDigit?]
  rcases h.2 c hc with hdigit | hletter
  · rw [if_pos hdigit]
    rfl
  · split
    · rfl
    · rfl

theorem IsHexDigest.slash_not_mem (h : IsHexDigest hash) : '/' ∉ hash.toList := fun hin =>
  absurd (h.isHexDigit '/' hin) (by decide)

/-- The number of the first eight digits. -/
def IsHexDigest.leading (hash : String) : Nat := hexDigits 0 (hash.toList.take 8)

theorem IsHexDigest.readHex_take (h : IsHexDigest hash) :
    readHex (hash.toList.take 8) = leading hash :=
  readHex_digits fun c hc => h.isHexDigit c (List.mem_of_mem_take hc)

theorem IsHexDigest.pythonInt16_take (h : IsHexDigest hash) :
    pythonInt16 (hash.toList.take 8) = some (leading hash : Int) := by
  have hdigits : ∀ c ∈ hash.toList.take 8, Routing.isHexDigit c = true :=
    fun c hc => h.isHexDigit c (List.mem_of_mem_take hc)
  refine pythonInt16_digits hdigits fun hnil => ?_
  have hlength := congrArg List.length hnil
  rw [List.length_take, h.1] at hlength
  cases hlength

end

section

variable (md5 : String → String) (hashPathPrefix hashPathSuffix account container : String)

theorem exists_lockName (hcontainer : container ≠ "") (object : String) :
    ∃ name, lockName md5 hashPathPrefix hashPathSuffix account container object = some name := by
  have hobj : hashPath md5 hashPathPrefix hashPathSuffix account container object ≠ none := by
    unfold hashPath
    split
    · rename_i hmissing
      exact absurd hmissing.2 hcontainer
    · simp
  obtain ⟨objHash, hobj⟩ := Option.ne_none_iff_exists'.mp hobj
  exact ⟨_, by rw [lockName, hobj]; rfl⟩

/-- The three numbers of a container are the same, whatever the object of the lock and the
directories of the path, and every object of a container has a lock. -/
theorem component_numbers_agree (hmd5 : ∀ s, IsHexDigest (md5 s))
    (fsBase filesystem accDir contDir : String) :
    ∃ path hash n, createPath md5 hashPathPrefix hashPathSuffix fsBase filesystem accDir contDir
        account container = some path ∧
      hashPath md5 hashPathPrefix hashPathSuffix account container "" = some hash ∧
      0 ≤ n ∧ n < 512 ∧ MemoryManager.getComponentName false path = n ∧
      (Calculation.evaluate hash 512).map (· - 1) = some n ∧
      (container ≠ "" → ∀ object, ∃ name,
        lockName md5 hashPathPrefix hashPathSuffix account container object = some name) ∧
      ∀ object name, lockName md5 hashPathPrefix hashPathSuffix account container object =
        some name → getComponentName false name = n := by
  have hsome : ∀ object name, hashPath md5 hashPathPrefix hashPathSuffix account container object =
      some name → IsHexDigest name := by
    intro object name hname
    rw [hashPath] at hname
    split at hname
    · cases hname
    · rw [← Option.some.inj hname]
      exact hmd5 _
  obtain ⟨accHash, hacc⟩ : ∃ accHash,
      hashPath md5 hashPathPrefix hashPathSuffix account "" "" = some accHash := ⟨_, rfl⟩
  obtain ⟨hash, hhash⟩ : ∃ hash,
      hashPath md5 hashPathPrefix hashPathSuffix account container "" = some hash := ⟨_, rfl⟩
  have hhex := hsome "" hash hhash
  refine ⟨_, hash, (IsHexDigest.leading hash % 512 : Nat), by rw [createPath, hacc, hhash]; rfl,
    hhash, by omega, by omega, ?_, ?_, exists_lockName md5 hashPathPrefix hashPathSuffix account
      container, fun object name hname => ?_⟩
  · simp only [MemoryManager.getComponentName, String.toList_append]
    have hslash : "/".toList = ['/'] := rfl
    rw [hslash, List.append_assoc, List.singleton_append, rfindSlash_append hhex.slash_not_mem]
    rw [drop_append_slash, hhex.readHex_take, if_pos (by simp; omega)]
    rfl
  · rw [Calculation.evaluate, hhex.pythonInt16_take]
    rw [Option.map_some, Option.map_some, Int.fmod_eq_emod_of_nonneg _ (by omega),
      Int.add_sub_cancel]
    rfl
  · rw [lockName, hacc, hhash] at hname
    simp only [Option.bind_eq_bind, Option.bind_some] at hname
    obtain ⟨objHash, hobj, hname⟩ := Option.bind_eq_some_iff.mp hname
    obtain rfl := Option.some.inj hname
    have hobjHex := hsome object objHash hobj
    have hslash : "/".toList = ['/'] := rfl
    simp only [getComponentName, String.toList_append]
    rw [hslash, List.append_assoc _ ['/'] objHash.toList, List.singleton_append,
      beforeLastSlash_append hobjHex.slash_not_mem, List.append_assoc, List.singleton_append,
      afterLastSlash_append hhex.slash_not_mem, hhex.readHex_take]
    rfl

/-- `md5` on the strings below. -/
def someDigests : String → String
  | "/account" => "af4a17527840af40a6cda3fc650af51b"
  | "/account/container" => "3a4b042ecd5b22cf1643acfe527fb41f"
  | "/account/container/obj" => "b7400056a32e449d4df25a238da8e5e1"
  | _ => "d41d8cd98f00b204e9800998ecf8427e"

theorem isHexDigest_someDigests (s : String) : IsHexDigest (someDigests s) := by
  unfold someDigests
  split <;> decide

theorem component_numbers_agree_someDigests : ∃ path name,
    createPath someDigests "" "" "/export" "fs1" "a01" "d01" "account" "container" = some path ∧
      lockName someDigests "" "" "account" "container" "obj" = some name ∧
      name = "af4a17527840af40a6cda3fc650af51b/3a4b042ecd5b22cf1643acfe527fb41f/" ++
        "b7400056a32e449d4df25a238da8e5e1" ∧
      MemoryManager.getComponentName false path = 46 ∧
      (Calculation.evaluate "3a4b042ecd5b22cf1643acfe527fb41f" 512).map (· - 1) = some 46 ∧
      getComponentName false name = 46 := by
  obtain ⟨path, hash, n, hpath, hhash, -, -, hmemory, hring, hlocks, hlock⟩ :=
    component_numbers_agree someDigests "" "" "account" "container" isHexDigest_someDigests
      "/export" "fs1" "a01" "d01"
  have hdigest : hash = "3a4b042ecd5b22cf1643acfe527fb41f" :=
    Option.some.inj (hhash.symm.trans (by decide))
  have hn : n = 46 := by
    rw [hdigest] at hring
    exact Option.some.inj (hring.symm.trans (by decide))
  subst hdigest hn
  obtain ⟨name, hname⟩ := hlocks (by decide) "obj"
  have hparts : some name = _ := hname.symm.trans (by decide : lockName someDigests "" "" "account"
    "container" "obj" = some ("af4a17527840af40a6cda3fc650af51b/" ++
      "3a4b042ecd5b22cf1643acfe527fb41f/" ++ "b7400056a32e449d4df25a238da8e5e1"))
  exact ⟨path, name, hpath, hname, Option.some.inj hparts, hmemory, hring, hlock "obj" name hname⟩

/-- The ring counts from 1. -/
example : Calculation.evaluate (someDigests "/account/container") 512 = some 47 := by decide

end

end ObjectStorage.Routing
