import BatchExport.Proofs.Remote.Address
import BatchExport.Proofs.Remote.Requests
import BatchExport.Remote.References

/-! Which resources look-ups by id ask for. Main statement: the resource of an id has a segment of its own below the
collection of its kind, exactly if no part of the id has a meaning in an address. -/
namespace BatchExport

open Retry (history)

namespace RemoteReferences

/-- If the service replies suitably, a look-up by this id makes this request. -/
def Requests (client : RemoteClient) (kind : ReferenceKind) (id : String) (request : HttpRequest) : Prop :=
  ∃ replies answer log, (byId client (.scripted replies) kind id).run [] = some (answer, log) ∧ .tried request ∈ log

def collection (kind : ReferenceKind) : List (List Char) := Text.splitAt '/' kind.path.toList

/-- The request is for the segment below the collection of the kind that stands for the id. -/
def Addresses (base : Address) (kind : ReferenceKind) (id : String) (request : HttpRequest) : Prop :=
  request.query = [] ∧ ∃ segment, Address.decode segment = Address.bytes id.toList ∧
    Address.read? request.url.toList =
      some { base with path := base.path ++ collection kind ++ [segment], query := none, fragment := none }

/-- No part of the id has a meaning in an address. -/
structure IsPlain (id : String) : Prop where
  slash : '/' ∉ id.toList
  query : '?' ∉ id.toList
  fragment : '#' ∉ id.toList
  dot : id ≠ "."
  dots : id ≠ ".."
  escape : ¬ Address.HasEscape id.toList

section Requests

variable {client : RemoteClient} {kind : ReferenceKind} {id other : String} {request request' : HttpRequest}
  {base a a' : Address}

/-- A look-up makes one request, some times. -/
theorem byId_scripted (client : RemoteClient) (kind : ReferenceKind) (id : String) (replies : Nat → HttpReply) :
    ∃ k answer, 1 ≤ k ∧ (byId client (.scripted replies) kind id).run [] =
      some (answer, history client.retry (client.request (idPath kind id) []) k) := by
  apply client.getJson_then_scripted
  intro found log
  cases found with
  | none => exact ⟨_, rfl⟩
  | some entity => exact ⟨_, rfl⟩

theorem requests_iff : Requests client kind id request ↔ request = client.request (idPath kind id) [] :=
  tried_iff_of_history (byId_scripted client kind id)

theorem toList_url (client : RemoteClient) (kind : ReferenceKind) (id : String) :
    (client.url (idPath kind id)).toList = client.baseUrl.toList ++ '/' :: (kind.path.toList ++ '/' :: id.toList) := by
  have hpath : ∃ c rest, kind.path.toList = c :: rest ∧ c ≠ '/' := by
    cases kind <;> exact ⟨_, _, rfl, by decide⟩
  obtain ⟨c, rest, hcons, hc⟩ := hpath
  simp only [RemoteClient.url, idPath, trimSlashesLeft, String.toList_append, String.toList_ofList, hcons]
  simp [hc]

/-- No path of a collection has a mark. -/
private theorem path_isClean (kind : ReferenceKind) : '?' ∉ kind.path.toList ∧ '#' ∉ kind.path.toList := by
  cases kind <;> decide

private theorem foldl_collection (kind : ReferenceKind) (before : List (List Char)) :
    (collection kind).foldl Address.follow before = before ++ collection kind :=
  Address.foldl_follow_of_noDots (by cases kind <;> decide)

/-- Where a look-up leads if neither the base nor the id has a query or a fragment. -/
theorem read?_url (hbase : Address.read? client.baseUrl.toList = some base)
    (hclean : base.query = none ∧ base.fragment = none) (hquery : '?' ∉ id.toList) (hfragment : '#' ∉ id.toList) :
    Address.read? (client.url (idPath kind id)).toList =
      some { base with path := (Text.splitAt '/' id.toList).foldl Address.follow (base.path ++ collection kind) } := by
  obtain ⟨hbaseQuery, hbaseFragment⟩ := (Address.marks_of_read? hbase).mp hclean
  obtain ⟨hpathQuery, hpathFragment⟩ := path_isClean kind
  rw [toList_url, Address.read?_below hbase (by simp [hbaseQuery, hpathQuery, hquery])
    (by simp [hbaseFragment, hpathFragment, hfragment]), Text.splitAt_separator, List.foldl_append]
  rw [← foldl_collection, collection]

private theorem addresses_iff (hbase : Address.read? client.baseUrl.toList = some base) :
    Addresses base kind id (client.request (idPath kind id) []) ↔
      (base.query = none ∧ base.fragment = none) ∧ IsPlain id := by
  refine ⟨fun ⟨_, segment, hdecode, hread⟩ => ?_, fun ⟨hclean, hplain⟩ => ?_⟩
  · obtain ⟨hurlQuery, hurlFragment⟩ := (Address.marks_of_read? hread).mp ⟨rfl, rfl⟩
    simp only [RemoteClient.request, toList_url, List.mem_append, List.mem_cons, not_or] at hurlQuery hurlFragment
    have hclean := (Address.marks_of_read? hbase).mpr ⟨hurlQuery.1, hurlFragment.1⟩
    have hquery := hurlQuery.2.2.2.2
    have hfragment := hurlFragment.2.2.2.2
    have hpath := (read?_url hbase hclean hquery hfragment).symm.trans hread
    simp only [Option.some.injEq, Address.mk.injEq] at hpath
    obtain ⟨hslash, hdot, hdots, hescape⟩ := (Address.foldl_follow_iff _).mp ⟨segment, hpath.2.2.1, hdecode⟩
    exact ⟨hclean, hslash, hquery, hfragment, fun heq => hdot (heq ▸ rfl), fun heq => hdots (heq ▸ rfl), hescape⟩
  · have hdot : id.toList ≠ ['.'] := fun heq => hplain.dot (String.toList_inj.mp heq)
    have hdots : id.toList ≠ ['.', '.'] := fun heq => hplain.dots (String.toList_inj.mp heq)
    obtain ⟨segment, hpath, hdecode⟩ := (Address.foldl_follow_iff (base.path ++ collection kind)).mpr
      ⟨hplain.slash, hdot, hdots, hplain.escape⟩
    refine ⟨rfl, segment, hdecode, (read?_url hbase hclean hplain.query hplain.fragment).trans ?_⟩
    rw [hpath, hclean.1, hclean.2]

/-- Ids whose segments stand for them have different paths. -/
theorem Addresses.id_eq (h : Addresses base kind id request) (h' : Addresses base kind other request')
    (hread : Address.read? request.url.toList = some a) (hread' : Address.read? request'.url.toList = some a')
    (hsame : a.path.map Address.decode = a'.path.map Address.decode) : id = other := by
  obtain ⟨-, segment, hdecode, haddress⟩ := h
  obtain ⟨-, segment', hdecode', haddress'⟩ := h'
  rw [hread] at haddress
  rw [hread'] at haddress'
  cases haddress
  cases haddress'
  have hlast := congrArg List.getLast? hsame
  simp only [List.map_append, List.map_cons, List.map_nil, List.getLast?_append, List.getLast?_singleton] at hlast
  have hbytes : Address.decode segment = Address.decode segment' := by simpa using hlast
  rw [hdecode, hdecode'] at hbytes
  exact String.toList_inj.mp (Address.bytes_injective hbytes)

end Requests

/-- A look-up makes requests of one kind only. Below a base without a query and a fragment they address exactly the
plain ids, below any other base they address none; and different ids that are plain have different paths. -/
theorem id_lookup_addresses_iff (client : RemoteClient) (base : Address)
    (hbase : Address.read? client.baseUrl.toList = some base) (kind : ReferenceKind) :
    (∀ id, ∃ request, ∀ r, Requests client kind id r ↔ r = request) ∧
    (∀ id request, Requests client kind id request →
      (Addresses base kind id request ↔ (base.query = none ∧ base.fragment = none) ∧ IsPlain id)) ∧
    ∀ id other request request' a a', Requests client kind id request → Requests client kind other request' →
      base.query = none → base.fragment = none → IsPlain id → IsPlain other →
      Address.read? request.url.toList = some a → Address.read? request'.url.toList = some a' →
      a.path.map Address.decode = a'.path.map Address.decode → id = other := by
  have haddresses {id request} (hrequest : Requests client kind id request) :
      Addresses base kind id request ↔ (base.query = none ∧ base.fragment = none) ∧ IsPlain id := by
    rw [requests_iff.mp hrequest]
    exact addresses_iff hbase
  refine ⟨fun id => ⟨_, fun r => requests_iff⟩, fun id request => haddresses, ?_⟩
  intro id other request request' a a' hrequest hrequest' hquery hfragment hplain hplain' hread hread' hsame
  have hfirst := (haddresses hrequest).mpr ⟨⟨hquery, hfragment⟩, hplain⟩
  have hsecond := (haddresses hrequest').mpr ⟨⟨hquery, hfragment⟩, hplain'⟩
  exact hfirst.id_eq hsecond hread hread' hsame

namespace Campus

def client : RemoteClient := .ofSettings { baseUrl := "http://h/api/" }

def base : Address :=
  { scheme := "http".toList, authority := ['h'], path := ["api".toList], query := none, fragment := none }

private theorem read?_base : Address.read? client.baseUrl.toList = some base := by decide

def lookup (id : String) : HttpRequest := client.request (idPath .user id) []

private theorem requests_lookup (id : String) : Requests client .user id (lookup id) := requests_iff.mpr rfl

private theorem isPlain_first : IsPlain "u-1" where
  slash := by decide
  query := by decide
  fragment := by decide
  dot := by decide
  dots := by decide
  escape := Address.decode_eq_bytes_iff.mp (by decide)

private theorem isPlain_second : IsPlain "100%" where
  slash := by decide
  query := by decide
  fragment := by decide
  dot := by decide
  dots := by decide
  escape := Address.decode_eq_bytes_iff.mp (by decide)

theorem plain_ids_are_addressed :
    Addresses base .user "u-1" (lookup "u-1") ∧ Addresses base .user "100%" (lookup "100%") ∧
    ∀ a a', Address.read? (lookup "u-1").url.toList = some a → Address.read? (lookup "100%").url.toList = some a' →
      a.path.map Address.decode ≠ a'.path.map Address.decode := by
  obtain ⟨-, haddresses, hdistinct⟩ := id_lookup_addresses_iff client base read?_base .user
  refine ⟨(haddresses _ _ (requests_lookup _)).mpr ⟨⟨rfl, rfl⟩, isPlain_first⟩,
    (haddresses _ _ (requests_lookup _)).mpr ⟨⟨rfl, rfl⟩, isPlain_second⟩, fun a a' hread hread' hsame => ?_⟩
  have heq := hdistinct "u-1" "100%" _ _ a a' (requests_lookup _) (requests_lookup _) rfl rfl isPlain_first isPlain_second
    hread hread' hsame
  revert heq
  decide

/-- The rest of an id can become a query, and another id can lead to the same resource. -/
theorem ids_lead_elsewhere :
    Address.read? client.baseUrl.toList = some base ∧
    Requests client .user "a?b" (lookup "a?b") ∧
    Address.read? (lookup "a?b").url.toList =
      some { base with path := ["api".toList, "users".toList, ['a']], query := some ['b'] } ∧
    ¬ Addresses base .user "a?b" (lookup "a?b") ∧
    Requests client .user "y" (lookup "y") ∧ Requests client .user "x/../y" (lookup "x/../y") ∧
    Address.read? (lookup "x/../y").url.toList = Address.read? (lookup "y").url.toList ∧
    Addresses base .user "y" (lookup "y") := by
  have hstray : ¬ Addresses base .user "a?b" (lookup "a?b") := fun h => by
    have hquery := ((addresses_iff read?_base).mp h).2.query
    revert hquery
    decide
  refine ⟨read?_base, requests_lookup _, by decide, hstray, requests_lookup _, requests_lookup _, by decide,
    rfl, ['y'], by decide, by decide⟩

end Campus

end RemoteReferences
end BatchExport
