import Openvocs.VocsDb.Export
import Openvocs.VocsDb.Grants
import Openvocs.VocsDb.RoleScopes
import Openvocs.VocsDb.FailedUpdate
import Openvocs.VocsDb.LockBalance
import Openvocs.VocsDb.SipDiff
import Openvocs.VocsDb.LoopPlaces
import Openvocs.Vocs.SipActions
import Openvocs.VocsDb.Unique
import Openvocs.VocsDb.Authorization
import Openvocs.Vocs.Participants
import Openvocs.Vocs.UnknownSession
import Openvocs.Vocs.Access
import Openvocs.Vocs.Authentication
import Openvocs.Rtp.RoundTrip
import Openvocs.Rtp.StreamBuffer
import Openvocs.Rtp.RtcpBounds
import Openvocs.Rtp.SendingOrder
import Openvocs.Registry.MixerRegistry
import Openvocs.Registry.BroadcastRegistry
import Openvocs.Registry.SlotAccess
import Openvocs.Vm.Abort
import Openvocs.Vm.Alias
import Openvocs.Ldap.Authenticate
import Openvocs.Sip.Lines
import Openvocs.Sip.RoundTrip
import Openvocs.Sip.CSeq
import Openvocs.Value.Inside
import Openvocs.Websocket.Pop
import Openvocs.Sip.Spelling
import Openvocs.Uri.Grammar
import Openvocs.Uri.DotSegments
import Openvocs.Http.HeaderSection
import Openvocs.Ice.RoleConflict
import Openvocs.Json.Sound
import Openvocs.Base.Base64
import Openvocs.Session.Expiry
import Openvocs.Http.Building
import Openvocs.Http.HeaderBounds
import Openvocs.Http.Framing
import Openvocs.Pcm.Peak
import Openvocs.Pcm.Mixing
import Openvocs.Json.EncodingExact
import Openvocs.Base.Chunker
import Openvocs.Ice.NominationRole
import Openvocs.Ice.Connectivity
import Openvocs.Ice.ResponseForm
import Openvocs.Ice.CandidateGrammar
import Openvocs.Json.DecodingSteps
import Openvocs.Base.Ringbuffer
import Openvocs.Base.Hashtable
import Openvocs.Base.DefaultDict
import Openvocs.Stun.Slicing
import Openvocs.Stun.Quoted
