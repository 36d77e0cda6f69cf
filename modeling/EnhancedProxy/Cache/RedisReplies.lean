import EnhancedProxy.Cache.Redis
import Mathlib.Data.List.Basic

/-! The replies that a read of the Redis level may get, and what it makes of them. -/

namespace EnhancedProxy

/-- The replies of a server to `AUTH` and `GET`. -/
inductive RedisReply
  | nil
  | status (text : Bytes)
  | integer (n : Int)
  | error (text : Bytes)
  | string (bytes : Bytes)
  deriving DecidableEq, Repr

/-- `reply->str`, which is null in a reply that has no text. -/
def RedisReply.str : RedisReply → Option Bytes
  | .nil | .integer _ => none
  | .status text | .error text | .string text => some text

namespace RedisCache

/-- The password was accepted: what `getAuth` means to read off the reply to `AUTH`, and does not
return. -/
def Authenticated (auth : Option RedisReply) : Prop := auth.bind (·.str) = some (ascii ['O', 'K'])

/-- `getAuth`, true for every reply that is not null. -/
def getAuth (auth : Option RedisReply) : Bool := auth.isSome

/-- `readRedisCache`, by whether `Connect` gives a context and the replies to `AUTH` and `GET`. -/
def readRedisCache (connects : Bool) (auth get : Option RedisReply) : Except RedisFault Bytes :=
  if !connects then .ok []
  else if !getAuth auth then .ok []
  else
    match get with
    | none => .ok []
    -- The type of the reply is not looked at.
    | some reply => readStr reply.str

/-- The read returns what was stored under the url, for a client with the password, or nothing. -/
def ReadsStored (connects : Bool) (auth get : Option RedisReply) : Prop :=
  ∃ content, readRedisCache connects auth get = .ok content ∧
    (content = [] ∨ (Authenticated auth ∧ get = some (.string (quoted content))))

/-- Over a connection that does not fail, the read is that of the text of the reply. -/
theorem readRedisCache_replies (library : RedisLibrary) (now : Nat) (store : RedisStore)
    (url : Bytes) {auth reply : RedisReply}
    (answered : reply.str = ((({ store := store } : RedisContext).redisCommand library now
      (ascii ['g', 'e', 't', ' '] ++ url)).2)) :
    EnhancedProxy.readRedisCache library now store url =
      readRedisCache true (some auth) (some reply) := by
  -- With a connection and an answered AUTH, only the reply of GET is left to agree.
  rw [readRedisCache_eq, ← answered]
  rfl

/-- The characters that are dropped enclose what is read. -/
theorem readStr_eq_ok {str : Option Bytes} {content : Bytes} :
    readStr str = .ok content ↔
      ∃ text first last, str = some text ∧
        text.takeWhile (· ≠ 0) = first :: (content ++ [last]) := by
  -- The string must have at least two characters.
  constructor
  · intro read
    cases str with
    | none => cases read
    | some text =>
      simp only [readStr] at read
      split at read
      · cases read
      · rename_i long
        -- What is left has a first and a last character.
        generalize whole : text.takeWhile (· ≠ 0) = res at read long
        obtain ⟨first, rest, rfl⟩ := List.exists_cons_of_length_pos (by omega : 0 < res.length)
        obtain rfl | ⟨inner, last, rfl⟩ := List.eq_nil_or_concat rest
        · simp at long
        · simp only [List.drop_one, List.tail_cons, List.concat_eq_append, List.dropLast_concat,
            Except.ok.injEq] at read
          subst read
          exact ⟨text, first, last, rfl, by rw [whole, List.concat_eq_append]⟩
  · rintro ⟨text, first, last, rfl, enclosed⟩
    simp only [readStr, enclosed]
    simp

/-- The read is right exactly if there is no connection, a reply is null, the text of the reply to
`GET` has two characters before its first NUL, or the password was accepted and that reply is a
string without NUL between quotation marks. -/
theorem reads_stored_iff (connects : Bool) (auth get : Option RedisReply) :
    ReadsStored connects auth get ↔
      connects = false ∨ auth = none ∨ get = none ∨
      (∃ reply text, get = some reply ∧ reply.str = some text ∧
        (text.takeWhile (· ≠ 0)).length = 2) ∨
      (Authenticated auth ∧ ∃ content, 0 ∉ content ∧ get = some (.string (quoted content))) := by
  -- The tests of the code come one after the other: connection, `AUTH`, `GET`.
  constructor
  · rintro ⟨content, read, right⟩
    cases connects with
    | false => exact .inl rfl
    | true =>
      cases auth with
      | none => exact .inr (.inl rfl)
      | some auth =>
        cases get with
        | none => exact .inr (.inr (.inl rfl))
        | some reply =>
          refine .inr (.inr (.inr ?_))
          obtain ⟨text, first, last, found, enclosed⟩ := readStr_eq_ok.mp read
          rcases right with rfl | ⟨authenticated, stored⟩
          · exact .inl ⟨reply, text, rfl, found, by rw [enclosed]; rfl⟩
          · -- What is read has no NUL.
            refine .inr ⟨authenticated, content, fun nul => ?_, stored⟩
            have inText : 0 ∈ text.takeWhile (· ≠ 0) := by
              rw [enclosed]
              exact List.mem_cons_of_mem first (List.mem_append_left _ nul)
            simpa using List.mem_takeWhile_imp inText
  · rintro (rfl | rfl | rfl | ⟨reply, text, rfl, found, two⟩ | ⟨authenticated, content, noNul, rfl⟩)
    · exact ⟨[], rfl, .inl rfl⟩
    · exact ⟨[], by cases connects <;> rfl, .inl rfl⟩
    · exact ⟨[], by cases connects <;> cases auth <;> rfl, .inl rfl⟩
    · -- Nothing is left between the two characters.
      have read : readStr reply.str = .ok [] := by
        obtain ⟨first, last, both⟩ := List.length_eq_two.mp two
        exact readStr_eq_ok.mpr ⟨text, first, last, found, both⟩
      refine ⟨[], ?_, .inl rfl⟩
      simp only [readRedisCache, read]
      cases connects <;> cases auth <;> rfl
    · have read : readStr (some (quoted content)) = .ok content := by
        -- The quotation marks are dropped again.
        refine readStr_eq_ok.mpr ⟨quoted content, 34, 34, rfl, ?_⟩
        refine List.takeWhile_eq_self_iff.mpr fun c member => ?_
        simp only [quoted, List.mem_append] at member
        rcases member with (mark | inside) | mark
        · rw [List.mem_singleton.mp mark]; decide
        · simpa using fun (same : c = 0) => noNul (same ▸ inside)
        · rw [List.mem_singleton.mp mark]; decide
      cases connects with
      | false => exact ⟨[], rfl, .inl rfl⟩
      | true =>
        cases auth with
        | none => exact ⟨[], rfl, .inl rfl⟩
        | some auth => exact ⟨content, read, .inr ⟨authenticated, rfl⟩⟩

/-- A plain cache miss is answered with a null string. -/
theorem cache_miss_faults :
    ¬ ∀ (connects : Bool) (auth get : Option RedisReply), ReadsStored connects auth get := by
  intro all
  -- A reply of the type nil has no text.
  obtain ⟨content, read, -⟩ := all true (some (.status (ascii ['O', 'K']))) (some .nil)
  cases read

end RedisCache

end EnhancedProxy
