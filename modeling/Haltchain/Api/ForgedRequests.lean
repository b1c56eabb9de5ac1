import Haltchain.Api.Replay

/-! # Forged requests and the nonces they burn

Both kinds of signed requests store their nonce before the signature is looked at, so a forged
request uses up the nonce of a genuine one. -/

namespace Haltchain.Api

open Lib Signing Validator NonceStore

namespace NonceStore

variable {s : NonceStore} {now : Nat} {a : String}

end NonceStore

namespace SignedRequest

variable {κ : Type} (keys : Keys κ)

variable {keys} {s : NonceStore} {now : Moment} {r : SignedRequest}

end SignedRequest

end Haltchain.Api
