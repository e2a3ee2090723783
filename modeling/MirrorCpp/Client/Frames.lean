import MirrorCpp.Client.Jobs

/-!
# Frames of client messages

A frame is a non-empty text without a newline. Every flow, session and job sends its messages
through `encode_client_message`, and what it does when there is no text for a message decides what
the caller is left with: `Handled` collects the encoder and everything built on it.
-/

namespace MirrorCpp.Client

open Itf Protocol

variable {lib : Library} {m : ClientMessage} {line : String}

end MirrorCpp.Client
